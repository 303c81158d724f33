import Recast.Proofs.Rename.Lines

/-! Imports and the code that uses them. The names on an import line are looked up in the whole index,
where a name that several types have stands for none of them; everywhere else a file means its own type
by such a name, and other files the first type that has it. On every other name the two agree. -/
namespace Recast
open Text Steps

namespace NameIndex
variable {x : NameIndex}

section Meaning

/-- The first owner of a name is the entry that is found under it. -/
theorem mem_firstOwners_iff {seen : List Text} {es : List Entry} {e : Entry} :
    e ∈ firstOwners seen es ↔ e.old ∉ seen ∧ es.find? (fun d => d.old == e.old) = some e := by
  induction es generalizing seen with
  | nil => simp [firstOwners]
  | cons d es ih =>
    unfold firstOwners
    rw [List.find?_cons]
    by_cases same : d.old = e.old
    · rw [show (d.old == e.old) = true by simpa using same]
      split
      · rename_i known
        have inside : e.old ∈ seen := by simpa [same] using known
        simp [ih,inside]
      · rename_i unseen
        have outside : e.old ∉ seen := by simpa [same] using unseen
        simp [ih,outside,same,eq_comm]
    · rw [show (d.old == e.old) = false by simpa using same]
      have other : e ≠ d := fun equal => same (by rw [equal])
      split
      · exact ih
      · simp [ih,other,Ne.symm same]

theorem mem_renames_iff {w v : Text} :
    (w,v) ∈ x.renames ↔ v = ((x.get? w).map Entry.new).getD w ∧ v ≠ w := by
  unfold renames
  rw [List.mem_filterMap]
  constructor
  · rintro ⟨e,owner,same⟩
    have found := (mem_firstOwners_iff.1 owner).2
    split at same
    · cases same
    · rename_i renamed
      cases same
      exact ⟨by simp [get?,found],by simpa using renamed⟩
  · rintro ⟨same,renamed⟩
    cases found : x.get? w with
    | none =>
      rw [found] at same
      exact absurd same renamed
    | some e =>
      rw [found] at same
      have new : v = e.new := same
      have old : e.old = w := by simpa using List.find?_some found
      subst new
      subst old
      exact ⟨e,mem_firstOwners_iff.2 ⟨by simp,found⟩,by rw [if_neg (by simpa using renamed)]⟩

/-- A pair of a list in which the pairs of one key have been replaced. -/
private theorem mem_replaced_iff {rs : List (Text × Text)} {key new w v : Text} :
    (w,v) ∈ rs.map (fun r => if r.1 == key then (key,new) else r) ↔
      if key = w then v = new ∧ ∃ r ∈ rs, r.1 = key else (w,v) ∈ rs := by
  rw [List.mem_map]
  by_cases self : key = w
  · subst self
    rw [if_pos rfl]
    constructor
    · rintro ⟨r,inside,same⟩
      by_cases own : r.1 = key
      · rw [if_pos (by simpa using own)] at same
        exact ⟨(Prod.mk.inj same).2.symm,r,inside,own⟩
      · rw [if_neg (by simpa using own)] at same
        exact absurd (congrArg Prod.fst same) own
    · rintro ⟨rfl,r,inside,own⟩
      exact ⟨r,inside,by rw [if_pos (by simpa using own)]⟩
  · rw [if_neg self]
    constructor
    · rintro ⟨r,inside,same⟩
      split at same
      · exact absurd (Prod.mk.inj same).1 self
      · exact same ▸ inside
    · exact fun inside => ⟨(w,v),inside,by rw [if_neg (by simpa using Ne.symm self)]⟩

/-- The new name of the type that a file means by a word: of its own type, or else of the first one. -/
def meant (x : NameIndex) (own : Entry) (w : Text) : Text :=
  if own.old = w then own.new else ((x.get? w).map Entry.new).getD w

theorem mem_renamesFor_iff {source : Text} {own : Entry} (mine : x.bySource? source = some own)
    {w v : Text} : (w,v) ∈ x.renamesFor source ↔ v = x.meant own w ∧ v ≠ w := by
  unfold renamesFor meant
  rw [mine]
  dsimp only
  by_cases self : own.old = w
  · subst self
    rw [if_pos rfl]
    split
    · rename_i kept
      have same : own.new = own.old := by simpa using kept
      simp [same]
    · rename_i renamed
      have other : own.new ≠ own.old := by simpa using renamed
      have differs : v = own.new → v ≠ own.old := fun same => same ▸ other
      split
      · rename_i listed
        have known : ∃ r ∈ x.renames, r.1 = own.old := by simpa using listed
        rw [mem_replaced_iff,if_pos rfl]
        exact ⟨fun ⟨same,_⟩ => ⟨same,differs same⟩,fun ⟨same,_⟩ => ⟨same,known⟩⟩
      · rename_i unlisted
        have absent : (own.old,v) ∉ x.renames := fun inside =>
          unlisted (List.any_eq_true.2 ⟨_,inside,by simp⟩)
        rw [List.mem_append,List.mem_singleton,Prod.mk.injEq]
        constructor
        · rintro (inside | ⟨_,same⟩)
          · exact absurd inside absent
          · exact ⟨same,differs same⟩
        · exact fun ⟨same,_⟩ => .inr ⟨rfl,same⟩
  · rw [if_neg self]
    split
    · simp [mem_renames_iff,Ne.symm self]
    · split
      · rw [mem_replaced_iff,if_neg self,mem_renames_iff]
      · simp [mem_renames_iff,Ne.symm self]

/-- A list that has one new name for a word, and none if the word stays, gives that name. -/
theorem given_eq_of_mem_iff {rs : List (Text × Text)} {w name : Text}
    (known : ∀ v, (w,v) ∈ rs ↔ v = name ∧ v ≠ w) : Renaming.given rs w = name := by
  unfold Renaming.given
  cases found : rs.find? fun r => r.1 == w with
  | some r =>
    have key : r.1 = w := by simpa using List.find?_some found
    have member := List.mem_of_find?_eq_some found
    exact ((known r.2).1 (key ▸ member)).1
  | none =>
    refine Decidable.byContradiction fun renamed => ?_
    have member := (known name).2 ⟨rfl,Ne.symm renamed⟩
    exact absurd (beq_self_eq_true w) (List.find?_eq_none.1 found _ member)

theorem given_renamesFor {source : Text} {own : Entry} (mine : x.bySource? source = some own) (w : Text) :
    Renaming.given (Renaming.longestFirst (x.renamesFor source)) w = x.meant own w :=
  given_eq_of_mem_iff fun _ => (Ordered.sort_perm _ _).mem_iff.trans (mem_renamesFor_iff mine)

end Meaning

/-- Several types have the name. -/
def Shared (x : NameIndex) (w : Text) : Prop := 1 < x.all.countP fun e => e.old == w

instance (x : NameIndex) (w : Text) : Decidable (x.Shared w) :=
  inferInstanceAs (Decidable (1 < x.all.countP fun e => e.old == w))

/-- The only type of a name is found under it. -/
theorem get?_of_not_shared {e : Entry} (member : e ∈ x.all) (alone : ¬ x.Shared e.old) :
    x.get? e.old = some e := by
  unfold Shared at alone
  rw [List.countP_eq_length_filter] at alone
  unfold get?
  have inside : e ∈ x.all.filter fun d => d.old == e.old := List.mem_filter.2 ⟨member,beq_self_eq_true _⟩
  rw [← List.head?_filter]
  generalize x.all.filter (fun d => d.old == e.old) = es at alone inside
  match es,alone,inside with
  | [d],_,inside => rw [List.mem_singleton.1 inside,List.head?_cons]
  | _ :: _ :: _,alone,_ => exact absurd (by simp) alone

section Lookup
variable (apart : x.all.Pairwise fun d e => d.new = e.new → d.new = d.old ∧ e.new = e.old)
include apart

/-- Types that get one name had it before. -/
theorem shared_of_new {w : Text} (several : 1 < x.all.countP fun e => e.new == w) : x.Shared w := by
  unfold Shared
  rw [List.countP_eq_length_filter] at several
  have among := apart.sublist (List.filter_sublist (p := fun e => e.new == w))
  have news : ∀ e ∈ x.all.filter fun e => e.new == w, e.new = w := fun e member => by
    simpa using (List.mem_filter.1 member).2
  have kept : ∀ e ∈ x.all.filter fun e => e.new == w, e.old = w := by
    generalize x.all.filter (fun e => e.new == w) = es at several among news
    match es, several with
    | a :: b :: rest, _ =>
      have first := List.pairwise_cons.1 among |>.1
      intro e member
      have new := news e member
      rcases List.mem_cons.1 member with rfl | later
      · rw [← (first b (by simp) (new.trans (news b (by simp)).symm)).1,new]
      · rw [← (first e later ((news a (by simp)).trans new.symm)).2,new]
  refine Nat.lt_of_lt_of_le several ?_
  rw [← List.countP_eq_length_filter]
  exact List.countP_mono_left fun e member new => by
    simpa using kept e (List.mem_filter.2 ⟨member,new⟩)

theorem ambiguous_iff (w : Text) : x.ambiguous w = true ↔ x.Shared w := by
  unfold ambiguous
  rw [Bool.or_eq_true,decide_eq_true_eq,decide_eq_true_eq]
  exact ⟨fun either => either.elim id (shared_of_new apart),.inl⟩

/-- On an import line a shared name stays, and another one becomes that of its only type. -/
theorem renamed_eq (w : Text) :
    Target.renamed x w = if x.Shared w then w else ((x.get? w).map Entry.new).getD w := by
  unfold Target.renamed resolve?
  by_cases shared : x.Shared w
  · rw [if_pos ((ambiguous_iff apart w).2 shared),if_pos shared]
  · rw [if_neg (mt (ambiguous_iff apart w).1 shared),if_neg shared]
    cases found : x.get? w with
    | some e => rfl
    | none =>
      cases other : x.all.find? fun e => e.new == w with
      | none => rfl
      | some e => exact by simpa using List.find?_some other

/-- The two lookups differ on shared names only, and on those where the file means a type whose name
changes. -/
theorem renamed_eq_meant_iff {source : Text} {own : Entry} (mine : x.bySource? source = some own)
    (w : Text) : Target.renamed x w = x.meant own w ↔ (x.Shared w → x.meant own w = w) := by
  rw [renamed_eq apart]
  by_cases shared : x.Shared w
  · rw [if_pos shared]
    exact ⟨fun same _ => same.symm,fun stays => (stays shared).symm⟩
  · rw [if_neg shared]
    refine ⟨fun _ held => absurd held shared,fun _ => ?_⟩
    unfold meant
    by_cases self : own.old = w
    · subst self
      rw [if_pos rfl,get?_of_not_shared (of_bySource? mine).1 shared]
      rfl
    · rw [if_neg self]

end Lookup

end NameIndex

namespace Target

theorem not_isAsciiWord {c : Char} (other : Renaming.isNameChar c = false) : isAsciiWord c = false :=
  Bool.eq_false_iff.2 fun word =>
    Bool.false_ne_true (other.symm.trans (Renaming.isNameChar_of_isAsciiWord word))

/-- Names end before the ending of a line. -/
theorem mapNames_dropEnding (rename : Text → Text) (line : Text) :
    mapNames rename [] (dropEnding line) ++ ending line = mapNames rename [] line := by
  have changes := changesRuns_mapNames rename
  have plain : ∀ c ∈ ending line, isAsciiWord c = false := fun c member =>
    not_isAsciiWord (Renaming.isNameChar_of_mem_ending member)
  have ended : (ending line).head?.any isAsciiWord = false := by
    cases held : ending line with
    | nil => rfl
    | cons c rest => exact plain c (by simp [held])
  have parts := changes.append (dropEnding line) ended
  rw [changes.eq_self fun c member => changes.not_start (plain c member),dropEnding_append_ending] at parts
  exact parts.symm

/-- A line that declares no package, and each one where a file has no namespace, gets the new names. -/
theorem restructureLine_names (own : Option Entry) (index : NameIndex) {line : Text}
    (structural : isStructural line = true)
    (unpackaged : (own.map Entry.space).getD [] ≠ [] → packageLine? (dropEnding line) = none) :
    restructureLine own index line = mapNames (renamed index) [] line := by
  have found : (if ((own.map Entry.space).getD []).isEmpty then none
      else packageLine? (dropEnding line)) = none := by
    split
    · rfl
    · rename_i filled
      exact unpackaged fun empty => filled (List.isEmpty_iff.2 empty)
  rw [restructureLine_eq,if_pos structural]
  unfold restructureBody
  rw [found]
  exact mapNames_dropEnding (renamed index) line

end Target

namespace NameIndex
open Renaming Target

/-- What the two strategies do with an identifier in a file: each puts one name in its place wherever it
stands between characters that belong to no name, and the two names are the same unless several types
have the identifier as their name and the file means one whose name changes. -/
structure Alike (x : NameIndex) (source : Text) (own : Entry) (w : Text) : Prop where
  imported : ∀ u v, Ends u → v.head?.any isNameChar = false → isStructural (u ++ (w ++ v)) = true →
    (own.space ≠ [] → packageLine? (dropEnding (u ++ (w ++ v))) = none) →
    restructureLine (some own) x (u ++ (w ++ v)) =
      mapNames (renamed x) [] u ++ (renamed x w ++ mapNames (renamed x) [] v)
  used : ∀ u v, Ends u → v.head?.any isNameChar = false → isStructural (u ++ (w ++ v)) = false →
    nameLine (longestFirst (x.renamesFor source)) (u ++ (w ++ v)) =
      substitute (longestFirst (x.renamesFor source)) u ++
        (given (longestFirst (x.renamesFor source)) w ++
          substitute (longestFirst (x.renamesFor source)) v)
  same_iff : renamed x w = given (longestFirst (x.renamesFor source)) w ↔
    (x.Shared w → given (longestFirst (x.renamesFor source)) w = w)
  shared : x.Shared w → renamed x w = w

theorem alike {x : NameIndex} (olds : ∀ e ∈ x.all, Naming.isIdentifier e.old = true)
    (apart : x.all.Pairwise fun d e => d.new = e.new → d.new = d.old ∧ e.new = e.old)
    {source : Text} {own : Entry} (mine : x.bySource? source = some own) {w : Text}
    (identifier : Naming.isIdentifier w = true) : x.Alike source own w where
  imported := fun u v before ended structural unpackaged => by
    rw [restructureLine_names (some own) x structural unpackaged]
    refine (changesRuns_mapNames (renamed x)).between ?_ (Naming.isIdentifier_iff.1 identifier) ?_
    · exact before.imp id fun ⟨t,c,same,plain⟩ => ⟨t,c,same,not_isAsciiWord plain⟩
    · cases v with
      | nil => rfl
      | cons c v => exact not_isAsciiWord (by simpa using ended)
  used := fun u v before ended structural => by
    unfold nameLine
    rw [structural,if_neg Bool.false_ne_true]
    exact (changesRuns_substitute ((spelled_of_identifiers olds).named source)).between before
      (isRun_of_isIdentifier identifier) ended
  same_iff := by
    rw [given_renamesFor mine]
    exact renamed_eq_meant_iff apart mine w
  shared := fun several => by rw [renamed_eq apart,if_pos several]

end NameIndex

namespace Namer
open Renaming

/-- In the index of a project's files the import lines and the other lines of an indexed file are renamed
alike, but for a name that several types have. -/
theorem renamed_alike (name extension : Text) (symbols : Symbols) (package : Option Text)
    (session : Option Session) (files : List (Text × Text)) :
    Obeys ((Namer.mk (.blocks name extension symbols) package session).index files)
      (fun x => ∀ source own, x.bySource? source = some own →
        (∀ code, structural (.blocks name extension symbols) x source code =
            some ((lines code).map (Target.restructureLine (some own) x)).flatten ∧
          identifiers (.blocks name extension symbols) x source code =
            some ((lines code).map (nameLine (longestFirst (x.renamesFor source)))).flatten) ∧
        ∀ w, Naming.isIdentifier w = true → x.Alike source own w)
      fun e => e = .notText ∧ ∃ s, session = some s ∧ ¬ s.service.SendsTexts := by
  refine (obeys_index_fresh (Target.counts_blocks name extension symbols package) files).mono
    (fun x fresh source own mine => ?_) fun _ h => h
  have olds : ∀ e ∈ x.all, Naming.isIdentifier e.old = true := by
    intro e member
    have known := fresh.old_mem (fun f inside => List.mem_map_of_mem inside) member
    obtain ⟨f,inside,same⟩ := List.mem_map.1 known
    obtain ⟨g,_,rfl⟩ := List.mem_map.1 inside
    rw [← same]
    exact isIdentifier_oldName g.1 g.2
  refine ⟨fun code => ⟨?_,NameIndex.identifiers_blocks olds name extension symbols source code⟩,
    fun w identifier => NameIndex.alike olds fresh.apart mine identifier⟩
  unfold structural
  rw [mine]
  rfl

/-- A project in which two files have a type of one name, and every type is to get one new name. -/
def twins : List (Text × Text) :=
  [("a.src".toList,"class A".toList),("b.src".toList,"class A".toList),("c.src".toList,"class C".toList)]

def twinNamer : Namer := ⟨.blocks "plain" ".txt" .braces,none,some (insistent "B")⟩

/-- The type that only one file has is renamed alike in the file that has the twin. -/
theorem renamed_alike_twins : ∃ x line own, (twinNamer.index twins).run.run {} = (.ok x,line) ∧
    x.bySource? "b.src" = some own ∧ x.Alike "b.src" own "C" ∧ ¬ x.Shared "C" ∧
    Target.renamed x "C" = "B_2" ∧ given (longestFirst (x.renamesFor "b.src")) "C" = "B_2" := by
  have ran : (match ((twinNamer.index twins).run.run {}).1 with
    | .ok x => (x.bySource? "b.src").isSome && !decide (x.Shared "C") &&
      (Target.renamed x "C" == "B_2".toList) &&
      (given (longestFirst (x.renamesFor "b.src")) "C" == "B_2".toList)
    | .error _ => false) = true := by decide +kernel
  cases same : (twinNamer.index twins).run.run {} with
  | mk r line =>
    rw [same] at ran
    cases r with
    | error e => cases ran
    | ok x =>
      simp only [Bool.and_eq_true,Bool.not_eq_true',decide_eq_false_iff_not,beq_iff_eq] at ran
      obtain ⟨⟨⟨indexed,alone⟩,imported⟩,used⟩ := ran
      obtain ⟨own,mine⟩ := Option.isSome_iff_exists.1 indexed
      have told := (renamed_alike "plain" ".txt" .braces none (some (insistent "B")) twins).ok same _ own mine
      exact ⟨x,line,own,rfl,mine,told.2 "C" (by decide),alone,imported,used⟩

/-- Of the name that two types have, an import line keeps what the code gives up; and behind a dollar sign,
which is no word character, an import line gives up what the code keeps. -/
theorem renamed_unlike_twins : ∃ x line, (twinNamer.index twins).run.run {} = (.ok x,line) ∧
    (x.bySource? "b.src").isSome = true ∧
    structural twinNamer.target x "b.src" "import A, $C;" = some "import A, $B_2;".toList ∧
    identifiers twinNamer.target x "b.src" "new A($C);" = some "new B_1($C);".toList := by
  have ran : (match ((twinNamer.index twins).run.run {}).1 with
    | .ok x => (x.bySource? "b.src").isSome &&
      (structural twinNamer.target x "b.src" "import A, $C;" == some "import A, $B_2;".toList) &&
      (identifiers twinNamer.target x "b.src" "new A($C);" == some "new B_1($C);".toList)
    | .error _ => false) = true := by decide +kernel
  cases same : (twinNamer.index twins).run.run {} with
  | mk r line =>
    rw [same] at ran
    cases r with
    | error e => cases ran
    | ok x =>
      simp only [Bool.and_eq_true,beq_iff_eq] at ran
      exact ⟨x,line,rfl,ran.1.1,ran.1.2,ran.2⟩

end Namer

end Recast
