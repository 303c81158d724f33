import Recast.Proofs.Rename.Freshness
import Recast.Proofs.Target.Structural
import Recast.Rename.Pass

/-! The words of an index. Where block symbols are all that is known of the target language, the names
of an index are identifiers, and so are the parts of its namespaces. -/
namespace Recast
open Text Steps

theorem Naming.isIdentifier_iff {s : Text} :
    isIdentifier s = true ↔ IsRun Target.isNameStart isAsciiWord s := by
  constructor
  · intro held
    refine ⟨?_,words_of_isIdentifier held⟩
    cases s with
    | nil => cases held
    | cons c r =>
      unfold isIdentifier at held
      rw [Bool.and_eq_true] at held
      exact held.1
  · rintro ⟨begins,all⟩
    cases s with
    | nil => cases begins
    | cons c r =>
      unfold isIdentifier
      rw [Bool.and_eq_true]
      exact ⟨begins,List.all_eq_true.2 fun d member => all d (by simp [member])⟩

/-- Names are identifiers, and namespaces hold nothing but words and points. -/
structure NameIndex.Worded (x : NameIndex) : Prop where
  olds : ∀ e ∈ x.all, Naming.isIdentifier e.old = true
  news : ∀ e ∈ x.all, Naming.isIdentifier e.new = true
  spaces : ∀ e ∈ x.all, ∀ c ∈ e.space, isDotted c = true

theorem Naming.isWord_of_mem_segment {s : Text} {c : Char} (member : c ∈ segment s) : isWord c = true := by
  have cleaned : ∀ d ∈ s.map (fun c => if isWord c then c else '_'), isWord d = true := by
    intro d inside
    obtain ⟨e,_,rfl⟩ := List.mem_map.1 inside
    split
    · assumption
    · rfl
  unfold segment at member
  dsimp only at member
  split at member
  · cases member
  · rename_i held
    rw [held] at cleaned
    split at member
    · rcases List.mem_cons.1 member with rfl | later
      · rfl
      · rw [held] at later
        exact cleaned c later
    · rw [held] at member
      exact cleaned c member

theorem Target.isDotted_of_mem_packageOf {source : Path} {package : Option Text} {c : Char}
    (dotted : ∀ p, package = some p → ∀ c ∈ p, isDotted c = true)
    (member : c ∈ packageOf source package) : isDotted c = true := by
  rcases of_mem_join member with point | ⟨p,inside,found⟩
  · rw [List.mem_singleton.1 point]
    decide
  · rcases List.mem_append.1 (List.mem_filter.1 inside).1 with base | directory
    · cases package with
      | none => cases base
      | some given => exact dotted given rfl c (mem_of_mem_pieces (List.mem_filter.1 base).1 found)
    · obtain ⟨part,_,rfl⟩ := List.mem_map.1 directory
      simp [isDotted,Naming.isWord_of_mem_segment found]

theorem Naming.isIdentifier_segment {s : Text} (ascii : ∀ c ∈ s, c.toNat < 128) (filled : segment s ≠ []) :
    isIdentifier (segment s) = true := by
  have cleaned : ∀ d ∈ s.map (fun c => if isWord c then c else '_'), isAsciiWord d = true ∧ d.toNat < 128 := by
    intro d inside
    obtain ⟨e,member,rfl⟩ := List.mem_map.1 inside
    have small := ascii e member
    split
    · rename_i word
      unfold isWord at word
      rw [if_pos small] at word
      exact ⟨word,small⟩
    · exact ⟨by decide,by decide⟩
  unfold segment at *
  dsimp only at *
  generalize s.map (fun c => if isWord c then c else '_') = t at cleaned filled
  cases t with
  | nil => exact absurd rfl filled
  | cons c t =>
    dsimp only
    split
    · exact isIdentifier_iff.2 ⟨rfl,fun d member => by
        rcases List.mem_cons.1 member with rfl | later
        · decide
        · exact (cleaned d later).1⟩
    · rename_i letter
      obtain ⟨word,small⟩ := cleaned c (by simp)
      have other : c.isDigit = false := by
        refine Bool.eq_false_iff.2 fun digit => letter ?_
        simp [isAnyDigit,isDigit,small,digit]
      refine isIdentifier_iff.2 ⟨?_,fun d member => (cleaned d member).1⟩
      simpa [isAsciiWord,Char.isAlphanum,other,Target.isNameStart] using word

theorem Naming.isIdentifier_directory {source d : Text} (ascii : ∀ c ∈ source, c.toNat < 128)
    (member : d ∈ (Path.ofText source).parent.allParts) (filled : segment d ≠ []) :
    isIdentifier (segment d) = true := by
  refine isIdentifier_segment (fun c inside => ?_) filled
  have parts : ∀ p ∈ (Path.ofText source).parent.parts, ∀ c ∈ p, c.toNat < 128 := fun p part c inside =>
    ascii c (mem_of_mem_pieces (List.mem_filter.1 (List.dropLast_subset _ part)).1 inside)
  unfold Path.allParts at member
  split at member
  · exact parts d member c inside
  · rcases List.mem_cons.1 member with rfl | later
    · have slashes := Path.isRoot_ofText source
      change c ∈ (Path.ofText source).root at inside
      have slash : c = '/' := by
        rcases slashes with root | root | root
        · rw [root] at inside
          cases inside
        · simpa [root] using inside
        · simpa [root] using inside
      rw [slash]
      decide
    · exact parts d later c inside

theorem Target.packageOf_shape {source : Text} {package : Option Text}
    (ascii : ∀ c ∈ source, c.toNat < 128)
    (identifiers : ∀ p, package = some p → ∀ part ∈ pieces '.' p, Naming.isIdentifier part = true) :
    ∃ parts, packageOf (.ofText source) package = join ['.'] parts ∧
      ∀ part ∈ parts, Naming.isIdentifier part = true := by
  refine ⟨_,rfl,fun part member => ?_⟩
  obtain ⟨inside,some_⟩ := List.mem_filter.1 member
  rcases List.mem_append.1 inside with base | directory
  · cases package with
    | none => cases base
    | some p => exact identifiers p rfl part (List.mem_filter.1 base).1
  · obtain ⟨d,there,rfl⟩ := List.mem_map.1 directory
    exact Naming.isIdentifier_directory ascii there (by simpa using some_)

/-- A namespace whose parts are identifiers begins like one. -/
theorem Target.leading_packageOf {source : Text} {package : Option Text}
    (ascii : ∀ c ∈ source, c.toNat < 128)
    (identifiers : ∀ p, package = some p → ∀ part ∈ pieces '.' p, Naming.isIdentifier part = true)
    (some_ : packageOf (.ofText source) package ≠ []) :
    (packageOf (.ofText source) package).head?.any isNameStart = true := by
  obtain ⟨parts,same,all⟩ := packageOf_shape ascii identifiers
  rw [same] at some_ ⊢
  cases parts with
  | nil => exact absurd rfl some_
  | cons first rest =>
    have begins := (Naming.isIdentifier_iff.1 (all first (by simp))).begins
    cases first with
    | nil => cases begins
    | cons c first => cases rest <;> simpa [join,List.intercalate] using begins

namespace Namer

section
variable {name extension : Text} {symbols : Symbols} {package : Option Text} {session : Option Session}

theorem isIdentifier_oldName (source content : Text) :
    Naming.isIdentifier
      ((Namer.mk (.blocks name extension symbols) package session).oldName source content) = true := by
  unfold oldName
  split
  · rename_i found
    split
    · exact Naming.isIdentifier_pascal _
    · exact Target.isIdentifier_firstType found
  · exact Naming.isIdentifier_pascal _

theorem worded_register {index : NameIndex} (worded : index.Worded)
    (dotted : ∀ p, package = some p → ∀ c ∈ p, isDotted c = true) (olds : List Text) {f : Unnamed}
    (old : Naming.isIdentifier f.old = true) {given : Text} (identifier : Naming.isIdentifier given = true) :
    ((Namer.mk (.blocks name extension symbols) package session).register index olds f given).Worded := by
  have all := all_register (n := Namer.mk (.blocks name extension symbols) package session) index olds f given
  have new : Naming.isIdentifier
      ((Namer.mk (.blocks name extension symbols) package session).next index olds f given).new = true := by
    rw [next_new]
    rcases (chosen_untaken (n := Namer.mk (.blocks name extension symbols) package session)
      (Target.counts_blocks name extension symbols package (.ofText f.source) given) index olds f.old).2
      with same | ⟨i,same⟩
    · rw [same]
      exact identifier
    · rw [same]
      exact Naming.isIdentifier_numbered identifier i
  refine ⟨fun e inside => ?_,fun e inside => ?_,fun e inside => ?_⟩
  all_goals rw [all] at inside
  · rcases List.mem_append.1 inside with before | last
    · exact worded.olds e before
    · rw [List.mem_singleton.1 last]
      exact old
  · rcases List.mem_append.1 inside with before | last
    · exact worded.news e before
    · rw [List.mem_singleton.1 last]
      exact new
  · rcases List.mem_append.1 inside with before | last
    · exact worded.spaces e before
    · rw [List.mem_singleton.1 last]
      exact fun c => Target.isDotted_of_mem_packageOf dotted

theorem obeys_index_worded (dotted : ∀ p, package = some p → ∀ c ∈ p, isDotted c = true)
    (files : List (Text × Text)) :
    Obeys ((Namer.mk (.blocks name extension symbols) package session).index files)
      NameIndex.Worded fun _ => True := by
  have fine : ∀ f ∈ (Namer.mk (.blocks name extension symbols) package session).unnamed files,
      Naming.isIdentifier f.old = true := by
    intro f member
    obtain ⟨g,_,rfl⟩ := List.mem_map.1 member
    exact isIdentifier_oldName g.1 g.2
  have none_ : NameIndex.empty.Worded :=
    ⟨(fun e inside => by cases inside),(fun e inside => by cases inside),fun e inside => by cases inside⟩
  exact obeys_nameAll (fun _ x => x.Worded)
    (fun f member => obeys_suggested_kind (fine f member) (fun _ identifier => identifier) f.content)
    (fun f member _ _ _ identifier worded => worded_register worded dotted _ (fine f member) identifier)
    (fun _ _ worded => ⟨worded.olds,worded.news,worded.spaces⟩) none_

theorem obeys_index_leading {files : List (Text × Text)} (ascii : ∀ f ∈ files, ∀ c ∈ f.1, c.toNat < 128)
    (identifiers : ∀ p, package = some p → ∀ part ∈ pieces '.' p, Naming.isIdentifier part = true) :
    Obeys ((Namer.mk (.blocks name extension symbols) package session).index files)
      (fun x => ∀ e ∈ x.all, e.space ≠ [] → e.space.head?.any Target.isNameStart = true) fun _ => True := by
  refine obeys_nameAll
    (fun _ x => ∀ e ∈ x.all, e.space ≠ [] → e.space.head?.any Target.isNameStart = true)
    (fun f _ => (Obeys.any _)) (fun f member done index given _ held => ?_) (fun _ _ held => held)
    (fun e inside => by cases inside)
  obtain ⟨g,there,rfl⟩ := List.mem_map.1 member
  rw [all_register]
  intro e inside
  rcases List.mem_append.1 inside with before | last
  · exact held e before
  · rw [List.mem_singleton.1 last]
    exact Target.leading_packageOf (ascii g ((Ordered.sort_perm _ _).mem_iff.1 there)) identifiers

end

end Namer

namespace NameIndex

theorem mem_of_resolve? {x : NameIndex} {name : Text} {e : Entry} (found : x.resolve? name = some e) :
    e ∈ x.all ∧ (e.old = name ∨ e.new = name) := by
  unfold resolve? at found
  split at found
  · cases found
  · unfold get? at found
    cases held : x.all.find? fun e => e.old == name with
    | some d =>
      rw [held] at found
      cases found
      exact ⟨List.mem_of_find?_eq_some held,.inl (by simpa using List.find?_some held)⟩
    | none =>
      rw [held] at found
      exact ⟨List.mem_of_find?_eq_some found,.inr (by simpa using List.find?_some found)⟩

theorem of_mem_renamesFor {x : NameIndex} {source : Text} {r : Text × Text}
    (member : r ∈ x.renamesFor source) : ∃ e ∈ x.all, r = (e.old,e.new) ∧ e.new ≠ e.old := by
  unfold renamesFor at member
  cases found : x.bySource? source with
  | none =>
    rw [found] at member
    exact of_mem_renames member
  | some own =>
    rw [found] at member
    dsimp only at member
    split at member
    · exact of_mem_renames (List.mem_filter.1 member).1
    · rename_i renamed
      have mine : ∃ e ∈ x.all, (own.old,own.new) = (e.old,e.new) ∧ e.new ≠ e.old :=
        ⟨own,(of_bySource? found).1,rfl,by simpa using renamed⟩
      split at member
      · obtain ⟨s,inside,same⟩ := List.mem_map.1 member
        split at same
        · rw [← same]
          exact mine
        · rw [← same]
          exact of_mem_renames inside
      · rcases List.mem_append.1 member with before | last
        · exact of_mem_renames before
        · rw [List.mem_singleton.1 last]
          exact mine

end NameIndex

end Recast
