import Mathlib.Data.List.Dedup
import Recast.Proofs.Rename.Words

/-! Look-ups are exact. A name leads to an entry exactly if no other one goes by it, in whatever order
the entries came in; so do the tables that are kept while entries are added, where the first to come
has a name and a name that comes again is marked. -/
namespace Recast

/-- A table of names: who was the first to come with each, and the names that came again. -/
structure Owners where
  first : List (Text × Entry) := []
  again : List Text := []

namespace Owners

def get? (o : Owners) (name : Text) : Option Entry :=
  (o.first.find? fun p => p.1 == name).map Prod.snd

def note (o : Owners) (p : Text × Entry) : Owners :=
  if (o.get? p.1).isSome then { o with again := p.1 :: o.again }
  else { o with first := o.first ++ [p] }

def noteAll (o : Owners) (ps : List (Text × Entry)) : Owners := ps.foldl note o

/-- What a table knows after these names came. -/
structure Notes (o : Owners) (ps : List (Text × Entry)) : Prop where
  found : ∀ name, o.get? name = (ps.find? fun p => p.1 == name).map Prod.snd
  again : ∀ name, name ∈ o.again ↔ 1 < ps.countP fun p => p.1 == name

theorem notes_empty : Notes {} [] := ⟨fun _ => rfl,fun _ => by simp⟩

theorem Notes.note {o : Owners} {ps : List (Text × Entry)} (notes : o.Notes ps) (p : Text × Entry) :
    (o.note p).Notes (ps ++ [p]) := by
  have some_ : (o.get? p.1).isSome ↔ 0 < ps.countP fun q => q.1 == p.1 := by
    rw [notes.found,Option.isSome_map,List.find?_isSome,List.countP_pos_iff]
  unfold Owners.note
  split
  · rename_i known
    refine ⟨fun name => ?_,fun name => ?_⟩
    · change o.get? name = _
      rw [List.find?_append,notes.found]
      cases held : ps.find? fun q => q.1 == name with
      | some q => rfl
      | none =>
        have other : (p.1 == name) = false := by
          refine Bool.eq_false_iff.2 fun same => ?_
          rw [notes.found,beq_iff_eq.1 same,held] at known
          cases known
        simp [other]
    · rw [List.mem_cons,notes.again,List.countP_append,List.countP_singleton]
      by_cases same : name = p.1
      · have before := some_.1 known
        subst same
        simp [before]
      · simp [same,Ne.symm same]
  · rename_i unknown
    have fresh : (ps.countP fun q => q.1 == p.1) = 0 := by
      rw [some_] at unknown
      omega
    refine ⟨fun name => ?_,fun name => ?_⟩
    · have before := notes.found name
      unfold get? at before ⊢
      dsimp only
      rw [List.find?_append,List.find?_append,Option.map_or,Option.map_or,before]
    · rw [notes.again,List.countP_append,List.countP_singleton]
      by_cases same : p.1 = name
      · rw [← same,fresh]
        simp
      · simp [same]

theorem Notes.noteAll {o : Owners} {ps : List (Text × Entry)} (notes : o.Notes ps)
    (qs : List (Text × Entry)) : (o.noteAll qs).Notes (ps ++ qs) := by
  induction qs generalizing o ps with
  | nil => rwa [List.append_nil]
  | cons q qs ih =>
    have later := ih (notes.note q)
    rwa [List.append_assoc] at later

end Owners

/-- The dotted names with which an entry comes, each of them once. -/
def Registered.pairs (r : Registered) : List (Text × Entry) := r.names.dedup.map fun name => (name,r.entry)

theorem Registered.filter_pairs (r : Registered) (name : Text) :
    (r.pairs.filter fun p => p.1 == name) = if r.names.contains name then [(name,r.entry)] else [] := by
  unfold pairs
  rw [List.filter_map]
  change (r.names.dedup.filter fun other => other == name).map _ = _
  rw [List.filter_beq]
  by_cases member : name ∈ r.names
  · rw [List.count_eq_one_of_mem r.names.nodup_dedup (List.mem_dedup.2 member)]
    simp [member]
  · rw [List.count_eq_zero.2 fun inside => member (List.mem_dedup.1 inside)]
    simp [member]

theorem filter_flatMap_pairs (rs : List Registered) (name : Text) :
    ((rs.flatMap Registered.pairs).filter fun p => p.1 == name) =
      (rs.filter fun r => r.names.contains name).map fun r => (name,r.entry) := by
  induction rs with
  | nil => rfl
  | cons r rs ih =>
    rw [List.flatMap_cons,List.filter_append,ih,r.filter_pairs,List.filter_cons]
    split
    · rfl
    · rfl

/-- The tables of an index while it is being filled. -/
structure NameTables where
  olds : Owners := {}
  news : Owners := {}
  dotted : Owners := {}

namespace NameTables

def add (t : NameTables) (r : Registered) : NameTables where
  olds := t.olds.note (r.entry.old,r.entry)
  news := t.news.note (r.entry.new,r.entry)
  dotted := t.dotted.noteAll r.pairs

def ofList (rs : List Registered) : NameTables := rs.foldl add {}

def resolve? (t : NameTables) (name : Text) : Option Entry :=
  if t.olds.again.contains name || t.news.again.contains name then none
  else (t.olds.get? name).orElse fun _ => t.news.get? name

def resolveDotted? (t : NameTables) (name : Text) : Option Entry :=
  if t.dotted.again.contains name then none else t.dotted.get? name

structure Notes (t : NameTables) (rs : List Registered) : Prop where
  olds : t.olds.Notes (rs.map fun r => (r.entry.old,r.entry))
  news : t.news.Notes (rs.map fun r => (r.entry.new,r.entry))
  dotted : t.dotted.Notes (rs.flatMap Registered.pairs)

theorem Notes.add {t : NameTables} {rs : List Registered} (notes : t.Notes rs) (r : Registered) :
    (t.add r).Notes (rs ++ [r]) := by
  refine ⟨?_,?_,?_⟩
  · rw [List.map_append]
    exact notes.olds.note _
  · rw [List.map_append]
    exact notes.news.note _
  · rw [List.flatMap_append,List.flatMap_singleton]
    exact notes.dotted.noteAll _

theorem notes_ofList (rs : List Registered) : (ofList rs).Notes rs := by
  have all (rest : List Registered) {t : NameTables} {done : List Registered} (notes : t.Notes done) :
      (rest.foldl NameTables.add t).Notes (done ++ rest) := by
    induction rest generalizing t done with
    | nil => rwa [List.foldl_nil,List.append_nil]
    | cons r rest ih =>
      have later := ih (notes.add r)
      rwa [List.append_assoc] at later
  have none_ : NameTables.Notes {} [] := ⟨Owners.notes_empty,Owners.notes_empty,Owners.notes_empty⟩
  exact all rs none_

variable {t : NameTables} {rs : List Registered} (notes : t.Notes rs) (frozen : Bool) (name : Text)
include notes

theorem Notes.resolve? : t.resolve? name = (NameIndex.mk rs frozen).resolve? name := by
  have again {o : Owners} {key : Entry → Text} (told : o.Notes (rs.map fun r => (key r.entry,r.entry))) :
      o.again.contains name = decide (1 < (NameIndex.mk rs frozen).all.countP fun e => key e == name) := by
    rw [List.contains_eq_mem,decide_eq_decide,told.again]
    unfold NameIndex.all
    rw [List.countP_map,List.countP_map]
    rfl
  have found {o : Owners} {key : Entry → Text} (told : o.Notes (rs.map fun r => (key r.entry,r.entry))) :
      o.get? name = (NameIndex.mk rs frozen).all.find? fun e => key e == name := by
    rw [told.found]
    unfold NameIndex.all
    rw [List.find?_map,List.find?_map,Option.map_map]
    rfl
  unfold NameTables.resolve? NameIndex.resolve? NameIndex.ambiguous NameIndex.get?
  rw [again notes.olds,again notes.news,found notes.olds,found notes.news]

theorem Notes.resolveDotted? : t.resolveDotted? name = (NameIndex.mk rs frozen).resolveDotted? name := by
  have again := notes.dotted.again name
  have found := notes.dotted.found name
  rw [List.countP_eq_length_filter,filter_flatMap_pairs,List.length_map] at again
  rw [← List.head?_filter,filter_flatMap_pairs,List.head?_map,Option.map_map] at found
  unfold NameTables.resolveDotted? NameIndex.resolveDotted?
  rw [List.contains_eq_mem,found]
  simp only [again]
  cases (rs.filter fun r => r.names.contains name) with
  | nil => rfl
  | cons r others =>
    cases others with
    | nil => rfl
    | cons s others => simp

end NameTables

namespace NameIndex

/-- An entry goes by a bare name. -/
def Named (x : NameIndex) (name : Text) (e : Entry) : Prop := e ∈ x.all ∧ (e.old = name ∨ e.new = name)

/-- Only a type that keeps its name has the old name of a type as its new one. -/
def Unchained (x : NameIndex) : Prop := ∀ d ∈ x.all, ∀ e ∈ x.all, d.new = e.old → d.new = d.old

/-- No entry is there twice, and none has two names of which one is the old name of another. -/
structure Unmixed (x : NameIndex) : Prop where
  nodup : x.all.Nodup
  unchained : x.Unchained

theorem Unmixed.perm {x y : NameIndex} (unmixed : x.Unmixed) (same : y.registered.Perm x.registered) :
    y.Unmixed := by
  have all : y.all.Perm x.all := same.map _
  exact ⟨all.nodup_iff.2 unmixed.nodup,
    fun d left e right => unmixed.unchained d (all.mem_iff.1 left) e (all.mem_iff.1 right)⟩

theorem eq_of_countP_le_one {α : Type} {p : α → Bool} {xs : List α} (few : xs.countP p ≤ 1) {a b : α}
    (left : a ∈ xs) (right : b ∈ xs) (first : p a = true) (second : p b = true) : a = b := by
  rw [List.countP_eq_length_filter] at few
  have one := List.mem_filter.2 ⟨left,first⟩
  have two := List.mem_filter.2 ⟨right,second⟩
  cases found : xs.filter p with
  | nil =>
    rw [found] at one
    cases one
  | cons c others =>
    cases others with
    | nil =>
      rw [found] at one two
      rw [List.mem_singleton.1 one,List.mem_singleton.1 two]
    | cons d others => simp [found] at few

theorem countP_le_one {p : Entry → Bool} {es : List Entry} (nodup : es.Nodup) {e : Entry}
    (only : ∀ d ∈ es, p d = true → d = e) : es.countP p ≤ 1 := by
  refine le_trans (List.countP_mono_left fun d member held => ?_) (List.nodup_iff_count_le_one.1 nodup e)
  exact beq_iff_eq.2 (only d member held)

/-- All entries that go by a name are one if the name leads to any. -/
theorem Unchained.eq_of_resolve? {x : NameIndex} (unchained : x.Unchained) {name : Text} {e : Entry}
    (found : x.resolve? name = some e) {d : Entry} (named : x.Named name d) : d = e := by
  obtain ⟨right,goes⟩ := mem_of_resolve? found
  have plain : x.ambiguous name = false := by
    unfold resolve? at found
    split at found
    · cases found
    · rename_i plain
      simpa using plain
  simp only [ambiguous,Bool.or_eq_false_iff,decide_eq_false_iff_not,not_lt] at plain
  -- Of two entries, one of which had the name and one of which gets it, the second one has it too.
  have old {c : Entry} (member : c ∈ x.all) (new : c.new = name) {o : Entry} (inside : o ∈ x.all)
      (had : o.old = name) : c.old = name :=
    (unchained c member o inside (new.trans had.symm)).symm.trans new
  have olds (a b : Entry) (left : a ∈ x.all) (right : b ∈ x.all) (first : a.old = name)
      (second : b.old = name) : a = b :=
    eq_of_countP_le_one plain.1 left right (beq_iff_eq.2 first) (beq_iff_eq.2 second)
  obtain ⟨left,had | new⟩ := named
  · rcases goes with had_ | new_
    · exact olds d e left right had had_
    · exact olds d e left right had (old right new_ left had)
  · rcases goes with had_ | new_
    · exact olds d e left right (old left new right had_) had_
    · exact eq_of_countP_le_one plain.2 left right (beq_iff_eq.2 new) (beq_iff_eq.2 new_)

theorem Unmixed.resolve?_eq_some_iff {x : NameIndex} (unmixed : x.Unmixed) {name : Text} {e : Entry} :
    x.resolve? name = some e ↔ x.Named name e ∧ ∀ d, x.Named name d → d = e := by
  constructor
  · intro found
    exact ⟨mem_of_resolve? found,fun d named => unmixed.unchained.eq_of_resolve? found named⟩
  · intro ⟨⟨member,goes⟩,only⟩
    have plain : x.ambiguous name = false := by
      simp only [ambiguous,Bool.or_eq_false_iff,decide_eq_false_iff_not,not_lt]
      exact ⟨countP_le_one unmixed.nodup fun d inside same => only d ⟨inside,.inl (beq_iff_eq.1 same)⟩,
        countP_le_one unmixed.nodup fun d inside same => only d ⟨inside,.inr (beq_iff_eq.1 same)⟩⟩
    unfold resolve? get?
    rw [plain,if_neg Bool.false_ne_true]
    cases held : x.all.find? fun d => d.old == name with
    | some d =>
      rw [only d ⟨List.mem_of_find?_eq_some held,.inl (by simpa using List.find?_some held)⟩]
      rfl
    | none =>
      have new : e.new = name := goes.resolve_left (by simpa using List.find?_eq_none.1 held e member)
      cases other : x.all.find? fun d => d.new == name with
      | some d =>
        rw [only d ⟨List.mem_of_find?_eq_some other,.inr (by simpa using List.find?_some other)⟩]
        rfl
      | none => exact absurd (beq_iff_eq.2 new) (List.find?_eq_none.1 other e member)

/-- All that registers a dotted name is one if the name leads to any entry. -/
theorem eq_of_resolveDotted? {x : NameIndex} {name : Text} {e : Entry}
    (found : x.resolveDotted? name = some e) :
    ∃ r ∈ x.registered, r.entry = e ∧ name ∈ r.names ∧ ∀ s ∈ x.registered, name ∈ s.names → s = r := by
  unfold resolveDotted? at found
  split at found
  · rename_i r one
    cases found
    have whole (s : Registered) : s ∈ x.registered ∧ name ∈ s.names ↔ s = r := by
      rw [← List.mem_singleton (a := s),← one]
      simp
    have self := (whole r).2 rfl
    exact ⟨r,self.1,rfl,self.2,fun s member named => (whole s).1 ⟨member,named⟩⟩
  · cases found

theorem mem_of_resolveDotted? {x : NameIndex} {name : Text} {e : Entry}
    (found : x.resolveDotted? name = some e) : e ∈ x.all := by
  obtain ⟨r,member,rfl,_⟩ := eq_of_resolveDotted? found
  exact List.mem_map_of_mem member

theorem Unmixed.resolveDotted?_eq_some_iff {x : NameIndex} (unmixed : x.Unmixed) {name : Text} {e : Entry} :
    x.resolveDotted? name = some e ↔
      (∃ r ∈ x.registered, r.entry = e ∧ name ∈ r.names) ∧
        ∀ r ∈ x.registered, name ∈ r.names → r.entry = e := by
  constructor
  · intro found
    obtain ⟨r,member,rfl,named,only⟩ := eq_of_resolveDotted? found
    exact ⟨⟨r,member,rfl,named⟩,fun s inside other => congrArg Registered.entry (only s inside other)⟩
  · intro ⟨⟨r,member,same,named⟩,only⟩
    have one : (x.registered.filter fun s => s.names.contains name) = [r] := by
      refine List.perm_singleton.1 ?_
      refine (List.perm_ext_iff_of_nodup ((unmixed.nodup.of_map _).filter _) (List.nodup_singleton r)).2
        fun s => ?_
      rw [List.mem_filter,List.mem_singleton]
      constructor
      · intro ⟨inside,other⟩
        have equal := only s inside (by simpa using other)
        exact List.inj_on_of_nodup_map unmixed.nodup inside member (equal.trans same.symm)
      · intro equal
        subst equal
        exact ⟨member,by simpa using named⟩
    unfold resolveDotted?
    rw [one,← same]

/-- The order in which entries came does not matter. -/
theorem Unmixed.reordered {x y : NameIndex} (unmixed : x.Unmixed) (same : y.registered.Perm x.registered)
    (name : Text) : y.resolve? name = x.resolve? name ∧ y.resolveDotted? name = x.resolveDotted? name := by
  have all : y.all.Perm x.all := same.map _
  refine ⟨Option.ext fun e => ?_,Option.ext fun e => ?_⟩
  · rw [(unmixed.perm same).resolve?_eq_some_iff,unmixed.resolve?_eq_some_iff]
    unfold Named
    simp only [all.mem_iff]
  · rw [(unmixed.perm same).resolveDotted?_eq_some_iff,unmixed.resolveDotted?_eq_some_iff]
    simp only [same.mem_iff]

end NameIndex

namespace Namer
open Steps

variable {n : Namer}

/-- Every entry is that of a file, and comes with the dotted names of its file. -/
def Enrolled (n : Namer) (x : NameIndex) : Prop :=
  ∀ r ∈ x.registered, ∃ source old new, r = ⟨n.entry source old new,n.aliases source old⟩

theorem Enrolled.register {index : NameIndex} (enrolled : n.Enrolled index) (olds : List Text)
    (f : Unnamed) (name : Text) : n.Enrolled (n.register index olds f name) := by
  intro r member
  rcases List.mem_append.1 member with before | last
  · exact enrolled r before
  · exact ⟨f.source,f.old,_,List.mem_singleton.1 last⟩

theorem obeys_index_enrolled (files : List (Text × Text)) :
    Obeys (n.index files) n.Enrolled fun _ => True := by
  have none_ : n.Enrolled .empty := fun r member => by cases member
  exact obeys_nameAll (fun _ x => n.Enrolled x) (fun _ _ => Obeys.any _)
    (fun f _ _ _ name _ enrolled => enrolled.register _ f name) (fun _ _ enrolled => enrolled) none_

/-- What is known of an index is that it is fresh, and that its entries are those of files. -/
theorem obeys_index_known (counts : n.target.Counts n.package) (files : List (Text × Text)) :
    Obeys (n.index files)
      (fun x => n.Enrolled x ∧ Fresh ((n.unnamed files).map Unnamed.old) (n.unnamed files) x.all)
      fun e => e = .notText ∧ ∃ s, n.session = some s ∧ ¬ s.service.SendsTexts :=
  ((obeys_index_enrolled files).and (obeys_index_fresh counts files)).mono (fun _ h => h) fun _ h => h.2

theorem Fresh.unchained {files : List (Text × Text)} {x : NameIndex}
    (fresh : Fresh ((n.unnamed files).map Unnamed.old) (n.unnamed files) x.all) : x.Unchained := by
  intro d left e right same
  refine Decidable.byContradiction fun renamed => fresh.unused d left renamed ?_
  rw [same]
  exact fresh.old_mem (fun f member => List.mem_map_of_mem member) right

theorem Fresh.unmixed {files : List (Text × Text)} {x : NameIndex}
    (fresh : Fresh ((n.unnamed files).map Unnamed.old) (n.unnamed files) x.all)
    (distinct : (files.map Prod.fst).Nodup) : x.Unmixed :=
  ⟨(fresh.sources.nodup_iff.2 distinct).of_map _,fresh.unchained⟩

/-- An entry registers a dotted name: its qualified one, its old one in its namespace, or another one of
its file. -/
def Registers (n : Namer) (x : NameIndex) (name : Text) (e : Entry) : Prop :=
  e ∈ x.all ∧ (name = e.qualified ∨ name = dotted e.space e.old ∨ name ∈ n.aliases e.source e.old)

theorem Enrolled.registers_iff {x : NameIndex} (enrolled : n.Enrolled x) {name : Text} {e : Entry} :
    n.Registers x name e ↔ ∃ r ∈ x.registered, r.entry = e ∧ name ∈ r.names := by
  have names {r : Registered} (member : r ∈ x.registered) : name ∈ r.names ↔ name = r.entry.qualified ∨
      name = dotted r.entry.space r.entry.old ∨ name ∈ n.aliases r.entry.source r.entry.old := by
    obtain ⟨source,old,new,rfl⟩ := enrolled r member
    unfold Registered.names
    rw [List.mem_cons,List.mem_cons]
    rfl
  constructor
  · intro ⟨member,told⟩
    obtain ⟨r,inside,rfl⟩ := List.mem_map.1 member
    exact ⟨r,inside,rfl,(names inside).2 told⟩
  · intro ⟨r,inside,same,named⟩
    subst same
    exact ⟨List.mem_map_of_mem inside,(names inside).1 named⟩

/-- A name leads to an entry exactly if it is the only one that goes by it. It is the same in an index to
which the entries came in another order, and in the tables that they fill. -/
structure Exact (n : Namer) (x : NameIndex) : Prop where
  bare : ∀ name e, x.resolve? name = some e ↔ x.Named name e ∧ ∀ d, x.Named name d → d = e
  dotted : ∀ name e,
    x.resolveDotted? name = some e ↔ n.Registers x name e ∧ ∀ d, n.Registers x name d → d = e
  unordered : ∀ y : NameIndex, y.registered.Perm x.registered → ∀ name,
    y.resolve? name = x.resolve? name ∧ y.resolveDotted? name = x.resolveDotted? name
  tables : ∀ rs, rs.Perm x.registered → ∀ name,
    (NameTables.ofList rs).resolve? name = x.resolve? name ∧
      (NameTables.ofList rs).resolveDotted? name = x.resolveDotted? name

theorem Enrolled.exact {x : NameIndex} (enrolled : n.Enrolled x) (unmixed : x.Unmixed) : n.Exact x := by
  refine ⟨fun name e => unmixed.resolve?_eq_some_iff,fun name e => ?_,fun y => unmixed.reordered,
    fun rs same name => ?_⟩
  · rw [unmixed.resolveDotted?_eq_some_iff]
    simp only [enrolled.registers_iff]
    refine and_congr_right fun _ => ⟨fun only d ⟨r,member,entry_,named⟩ => ?_,fun only r member named => ?_⟩
    · rw [← entry_]
      exact only r member named
    · exact only r.entry ⟨r,member,rfl,named⟩
  · have notes := NameTables.notes_ofList rs
    rw [notes.resolve? x.frozen,notes.resolveDotted? x.frozen]
    exact unmixed.reordered (y := ⟨rs,x.frozen⟩) same name

theorem unnamed_perm {files others : List (Text × Text)} (same : others.Perm files)
    (distinct : (files.map Prod.fst).Nodup) : n.unnamed others = n.unnamed files := by
  have sorted (fs : List (Text × Text)) : (Ordered.sort (fun a b : Text × Text => Text.ordered a.1 b.1)
      fs).Pairwise fun a b => Text.ordered a.1 b.1 = true :=
    Ordered.pairwise_sort (fun a b => Text.ordered_total a.1 b.1)
      (fun a b c => Text.ordered_trans a.1 b.1 c.1) fs
  have perm := ((Ordered.sort_perm (fun a b : Text × Text => Text.ordered a.1 b.1) others).trans same).trans
    (Ordered.sort_perm (fun a b : Text × Text => Text.ordered a.1 b.1) files).symm
  unfold unnamed
  rw [List.Perm.eq_of_pairwise (fun a b left right first second => ?_) (sorted others) (sorted files) perm]
  have paths := Text.ordered_antisymm first second
  have inside := same.mem_iff.1 ((Ordered.sort_perm _ _).mem_iff.1 left)
  exact List.inj_on_of_nodup_map distinct inside ((Ordered.sort_perm _ _).mem_iff.1 right) paths

end Namer

open Steps in
/-- Look-ups in the index of a project are exact, and the files may come in any order. -/
theorem Registry.exact_index (r : Registry) (parsers : Parsers) (language : Text)
    (settings : Option LanguageSettings) (package : Option Text) (session : Option Session)
    (files : List (Text × Text)) (distinct : (files.map Prod.fst).Nodup) :
    let n : Namer := ⟨r.target parsers language settings,package,session⟩
    (∀ others, others.Perm files → n.index others = n.index files) ∧
      Obeys (n.index files) n.Exact
        fun e => e = .notText ∧ ∃ s, session = some s ∧ ¬ s.service.SendsTexts := by
  intro n
  constructor
  · intro others same
    unfold Namer.index
    rw [Namer.unnamed_perm same distinct]
  refine (Namer.obeys_index_known (r.counts_target parsers language settings package) files).mono
    (fun x ⟨enrolled,fresh⟩ => enrolled.exact (fresh.unmixed distinct)) fun _ h => h

/-- Two types of one name are told apart by their dotted names only. -/
theorem Registry.exact_index_insistent :
    let files : List (Text × Text) := [("c.src","class C"),("b/x.src","class A"),("a/x.src","class A")]
    let n : Namer :=
      ⟨Registry.standard.target Namer.noParsers "python" none,none,some (Namer.insistent "B")⟩
    let told (x : NameIndex) : List (Option Text) :=
      [x.resolve? "A",x.resolve? "C",x.resolve? "B_2",x.resolveDotted? "b.A"].map
        fun e => e.map Entry.qualified
    let qualified : List (Option Text) :=
      [none,some "b_2.B_2".toList,some "b_2.B_2".toList,some "b.b_1.B_1".toList]
    ∃ x line, (n.index files).run.run {} = (.ok x,line) ∧
      told x = qualified ∧ n.Exact x := by
  intro files n told qualified
  have ran : (match ((n.index files).run.run {}).1 with
    | .ok x => told x
    | .error _ => []) = qualified := by decide +kernel
  have exact_ := (Registry.exact_index Registry.standard Namer.noParsers "python" none none
    (some (Namer.insistent "B")) files (by decide +kernel)).2
  cases same : (n.index files).run.run {} with
  | mk r line =>
    rw [same] at ran
    cases r with
    | ok x => exact ⟨x,line,rfl,ran,exact_.ok same⟩
    | error e => exact absurd ran (List.cons_ne_nil _ _).symm

end Recast
