import Recast.Proofs.Rename.Lookup
import Recast.Target.Modules

/-! An import that is written anew takes every name along. The names of a statement are shared out
among the modules that hold them now, each to one statement, and what comes out stays as it is. -/
namespace Recast

theorem perm_flatMap_filter {α β : Type} [DecidableEq β] (key : α → β) {keys : List β}
    (nodup : keys.Nodup) {as : List α} (all : ∀ a ∈ as, key a ∈ keys) :
    (keys.flatMap fun k => as.filter fun a => key a = k).Perm as := by
  induction keys generalizing as with
  | nil =>
    cases as with
    | nil => exact .refl _
    | cons a as => cases all a (by simp)
  | cons k keys ih =>
    obtain ⟨other,nodup⟩ := List.nodup_cons.1 nodup
    have rest : ∀ a ∈ as.filter fun a => !decide (key a = k), key a ∈ keys := by
      intro a member
      obtain ⟨inside,new⟩ := List.mem_filter.1 member
      exact (List.mem_cons.1 (all a inside)).resolve_left (by simpa using new)
    have same : (keys.flatMap fun j => as.filter fun a => key a = j) =
        keys.flatMap fun j => (as.filter fun a => !decide (key a = k)).filter fun a => key a = j := by
      refine List.flatMap_congr fun j member => ?_
      rw [List.filter_filter]
      refine List.filter_congr fun a _ => ?_
      have apart : j ≠ k := fun again => other (again ▸ member)
      by_cases equal : key a = j
      · simp [equal,apart]
      · simp [equal]
    rw [List.flatMap_cons,same]
    exact ((ih nodup rest).append_left _).trans (List.filter_append_perm _ as)

namespace FromImport

/-- A list whose members are gathered under the keys that they have, in their order. -/
structure Gathered {α β : Type} (key : α → Option Text) (f : α → β) (as : List α) (keys : List Text)
    (groups : List (Text × List β)) : Prop where
  nodup : keys.Nodup
  used : ∀ k, k ∈ keys ↔ ∃ a ∈ as, key a = some k
  groups : groups = keys.map fun k => (k,(as.filter fun a => key a = some k).map f)

theorem insertUnder_map {α : Type} {key : Text} {g : Text → List α} {keys : List Text}
    (nodup : keys.Nodup) (new : key ∉ keys → g key = []) (a : α) :
    insertUnder key a (keys.map fun k => (k,g k)) =
      (if key ∈ keys then keys else keys ++ [key]).map
        fun k => (k,if k = key then g k ++ [a] else g k) := by
  induction keys with
  | nil => simp [insertUnder,new]
  | cons k keys ih =>
    obtain ⟨other,nodup⟩ := List.nodup_cons.1 nodup
    rw [List.map_cons,insertUnder]
    split
    · rename_i same
      subst same
      rw [if_pos (List.mem_cons_self),List.map_cons,if_pos rfl]
      refine congrArg _ (List.map_congr_left fun j member => ?_)
      rw [if_neg fun same : j = k => other (same ▸ member)]
    · rename_i apart
      rw [ih nodup fun absent => new (by simp [absent,Ne.symm apart])]
      by_cases member : key ∈ keys
      · rw [if_pos member,if_pos (List.mem_cons_of_mem _ member),List.map_cons,if_neg apart]
      · rw [if_neg member,if_neg (by simp [member,Ne.symm apart]),List.cons_append,List.map_cons,
          if_neg apart]

variable {α β : Type} {key : α → Option Text} {f : α → β} {as : List α} {keys : List Text}
  {groups : List (Text × List β)}

theorem Gathered.stay (gathered : Gathered key f as keys groups) {a : α} (none_ : key a = none) :
    Gathered key f (as ++ [a]) keys groups := by
  refine ⟨gathered.nodup,fun k => ?_,?_⟩
  · rw [gathered.used]
    simp [none_]
  · rw [gathered.groups]
    simp [none_]

theorem Gathered.move (gathered : Gathered key f as keys groups) {a : α} {k : Text}
    (some_ : key a = some k) :
    Gathered key f (as ++ [a]) (if k ∈ keys then keys else keys ++ [k])
      (insertUnder k (f a) groups) := by
  refine ⟨?_,fun j => ?_,?_⟩
  · split
    · exact gathered.nodup
    · rename_i new
      simpa using gathered.nodup.concat new
  · have grown : j ∈ (if k ∈ keys then keys else keys ++ [k]) ↔ j ∈ keys ∨ k = j := by
      split
      · rename_i old
        exact ⟨.inl,fun told => told.elim id fun same => same ▸ old⟩
      · rw [List.mem_append,List.mem_singleton,eq_comm (a := j)]
    rw [grown,gathered.used]
    simp only [List.mem_append,List.mem_singleton,or_and_right,exists_or,exists_eq_left,some_,
      Option.some_inj]
  · rw [gathered.groups,insertUnder_map gathered.nodup]
    · refine List.map_congr_left fun j _ => ?_
      rw [List.filter_append,List.map_append]
      by_cases same : j = k
      · simp [same,some_]
      · simp [same,some_,Ne.symm same]
    · intro new
      rw [List.map_eq_nil_iff,List.filter_eq_nil_iff]
      intro b member equal
      exact new ((gathered.used k).2 ⟨b,member,by simpa using equal⟩)

variable (s : FromImport) (x : NameIndex)

/-- The module that holds an imported name now; none has to be given where the name stays. -/
def home? (n : ImportedName) : Option Text := (s.movedTo? x n).map Entry.space

/-- An imported name as its entry is called now. -/
def renewed (n : ImportedName) : ImportedName :=
  match s.movedTo? x n with
  | some e => { n with name := e.new }
  | none => n

theorem sort_concat_none {names : List ImportedName} {n : ImportedName} (stays : s.movedTo? x n = none) :
    s.sort x (names ++ [n]) = ((s.sort x names).1 ++ [n],(s.sort x names).2) := by
  cases names with
  | nil => simp [sort,stays]
  | cons m names => simp [sort,List.foldl_append,stays]

theorem sort_concat_some {names : List ImportedName} {n : ImportedName} {e : Entry}
    (moved : s.movedTo? x n = some e) : s.sort x (names ++ [n]) =
      ((s.sort x names).1,insertUnder e.space { n with name := e.new } (s.sort x names).2) := by
  cases names with
  | nil => simp [sort,moved]
  | cons m names => simp [sort,List.foldl_append,moved]

theorem sort_gathered (names : List ImportedName) :
    (s.sort x names).1 = (names.filter fun n => s.home? x n = none) ∧
      ∃ keys, Gathered (s.home? x) (s.renewed x) names keys (s.sort x names).2 := by
  induction names using List.reverseRecOn with
  | nil => exact ⟨rfl,[],List.nodup_nil,fun k => by simp,rfl⟩
  | append_singleton names n ih =>
    obtain ⟨kept,keys,gathered⟩ := ih
    cases found : s.movedTo? x n with
    | none =>
      have home : s.home? x n = none := by unfold home?; rw [found]; rfl
      rw [s.sort_concat_none x found]
      refine ⟨?_,keys,gathered.stay home⟩
      simp [kept,home]
    | some e =>
      have home : s.home? x n = some e.space := by unfold home?; rw [found]; rfl
      have name : s.renewed x n = { n with name := e.new } := by unfold renewed; rw [found]
      rw [s.sort_concat_some x found]
      refine ⟨?_,_,name ▸ gathered.move home⟩
      simp [kept,home]

/-- The statement for the names that a module holds, or for those that stay. -/
def part : Option Text → FromImport
  | none => { s with names := s.names.filter fun n => s.home? x n = none }
  | some space => ⟨some space,0,(s.names.filter fun n => s.home? x n = some space).map (s.renewed x)⟩

/-- Names stay only where there are any. -/
def stays : List (Option Text) := if (s.part x none).names.isEmpty then [] else [none]

/-- Every name with where it is taken from. -/
def taken : List (Option Text × Nat × ImportedName) := s.names.map fun n => (s.module,s.level,n)

/-- Where an imported name is to be taken from, and how it is called there. -/
def arrives (n : ImportedName) : Option Text × Nat × ImportedName :=
  match s.movedTo? x n with
  | some e => (some e.space,0,{ n with name := e.new })
  | none => (s.module,s.level,n)

/-- Statements for an import: one for each module that holds a name of it now, and one for the names
that stay; every name in one of them, and none of them to be written anew. -/
structure Requalified (ss : List FromImport) : Prop where
  parts : ∃ homes : List (Option Text), homes.Nodup ∧
    (∀ home, home ∈ homes ↔ ∃ n ∈ s.names, s.home? x n = home) ∧ ss = homes.map (s.part x)
  once : (ss.flatMap taken).Perm (s.names.map (s.arrives x))
  settled : ∀ t ∈ ss, t.requalify? x = none

variable {s x}

theorem home?_eq_none_iff {n : ImportedName} : s.home? x n = none ↔ s.movedTo? x n = none :=
  Option.map_eq_none_iff

theorem taken_part (home : Option Text) :
    (s.part x home).taken = (s.names.filter fun n => s.home? x n = home).map (s.arrives x) := by
  cases home with
  | none =>
    refine List.map_congr_left fun n member => ?_
    have stays : s.home? x n = none := by simpa using (List.mem_filter.1 member).2
    unfold arrives
    rw [home?_eq_none_iff.1 stays]
    rfl
  | some space =>
    refine (List.map_map ..).trans (List.map_congr_left fun n member => ?_)
    have moved : s.home? x n = some space := by simpa using (List.mem_filter.1 member).2
    obtain ⟨e,found,rfl⟩ := Option.map_eq_some_iff.1 moved
    unfold arrives renewed part
    simp [found]

variable (s x) in
theorem requalify?_eq : ∃ keys : List Text, keys.Nodup ∧
    (∀ k, k ∈ keys ↔ ∃ n ∈ s.names, s.home? x n = some k) ∧
      s.requalify? x = if keys.isEmpty then none
        else some ((s.stays x ++ keys.map some).map (s.part x)) := by
  obtain ⟨kept,keys,gathered⟩ := s.sort_gathered x s.names
  refine ⟨keys,gathered.nodup,gathered.used,?_⟩
  have moved := gathered.groups
  unfold requalify? stays
  generalize s.sort x s.names = sorted at kept moved
  obtain ⟨stays,groups⟩ := sorted
  dsimp only at kept moved ⊢
  rw [kept,moved,List.isEmpty_map,List.map_append,List.map_map,List.map_map,apply_ite (List.map (s.part x))]
  rfl

theorem requalify?_eq_none_iff : s.requalify? x = none ↔ ∀ n ∈ s.names, s.movedTo? x n = none := by
  obtain ⟨keys,_,used,same⟩ := s.requalify?_eq x
  have nothing : s.requalify? x = none ↔ ∀ k, k ∉ keys := by
    rw [same,← List.eq_nil_iff_forall_not_mem]
    cases keys with
    | nil => simp
    | cons k keys => simp
  simp only [nothing,used,← home?_eq_none_iff]
  constructor
  · intro none_ n member
    exact Option.eq_none_iff_forall_ne_some.2 fun k moved => none_ k ⟨n,member,moved⟩
  · intro stay k ⟨n,member,moved⟩
    rw [stay n member] at moved
    cases moved

theorem mem_stays {home : Option Text} :
    home ∈ s.stays x ↔ home = none ∧ ∃ n ∈ s.names, s.home? x n = none := by
  have some_ : (s.part x none).names.isEmpty = false ↔ ∃ n ∈ s.names, s.home? x n = none := by
    rw [List.isEmpty_eq_false_iff_exists_mem]
    refine exists_congr fun n => List.mem_filter.trans ?_
    rw [decide_eq_true_iff]
  unfold stays
  rw [← some_]
  split
  · rename_i empty
    simp [empty]
  · rename_i filled
    simp [filled]

theorem requalify?_parts {ss : List FromImport} (new : s.requalify? x = some ss) :
    ∃ homes : List (Option Text), homes.Nodup ∧
      (∀ home, home ∈ homes ↔ ∃ n ∈ s.names, s.home? x n = home) ∧ ss = homes.map (s.part x) := by
  obtain ⟨keys,nodup,used,same⟩ := s.requalify?_eq x
  rw [new] at same
  have whole : ss = (s.stays x ++ keys.map some).map (s.part x) := by
    split at same
    · cases same
    · exact Option.some_inj.1 same
  refine ⟨_,List.nodup_append.2 ⟨?_,nodup.map (Option.some_injective _),fun a left b right equal => ?_⟩,
    fun home => ?_,whole⟩
  · unfold stays
    split
    · exact List.nodup_nil
    · exact List.nodup_singleton _
  · obtain ⟨k,_,rfl⟩ := List.mem_map.1 right
    rw [equal] at left
    cases (mem_stays.1 left).1
  · rw [List.mem_append,mem_stays,List.mem_map]
    cases home with
    | none => simp
    | some k => simp [used]

theorem requalify?_once {ss : List FromImport} (new : s.requalify? x = some ss) :
    (ss.flatMap taken).Perm (s.names.map (s.arrives x)) := by
  obtain ⟨homes,nodup,used,rfl⟩ := requalify?_parts new
  rw [List.flatMap_map]
  simp only [taken_part]
  rw [← List.map_flatMap]
  exact (perm_flatMap_filter (s.home? x) nodup fun n member => (used _).2 ⟨n,member,rfl⟩).map _

end FromImport

namespace FromImport
variable {s : FromImport} {x : NameIndex}

theorem movedTo?_cases {n : ImportedName} {e : Entry} (moved : s.movedTo? x n = some e) :
    (x.resolveDotted? (s.origin ++ '.' :: n.name) = some e ∨ x.resolve? n.name = some e) ∧
      ¬ (e.space = s.origin ∧ e.new = n.name) := by
  unfold movedTo? at moved
  split at moved
  · cases moved
  · obtain ⟨found,other⟩ := Option.filter_eq_some_iff.1 moved
    refine ⟨?_,not_and_or.2 (by simpa using other)⟩
    cases dotted_ : x.resolveDotted? (s.origin ++ '.' :: n.name) with
    | none =>
      rw [dotted_] at found
      exact .inr found
    | some d =>
      rw [dotted_] at found
      exact .inl found

/-- What is taken from where it is now is not moved again. -/
theorem movedTo?_settled (unchained : x.Unchained) {e : Entry} (member : e ∈ x.all) (filled : e.space ≠ [])
    {n : ImportedName} (origin : s.origin = e.space) (name : n.name = e.new) : s.movedTo? x n = none := by
  refine Option.eq_none_iff_forall_ne_some.2 fun d moved => ?_
  obtain ⟨found,other⟩ := movedTo?_cases moved
  have same : d = e := by
    rcases found with dotted_ | bare
    · obtain ⟨r,inside,rfl,_,only⟩ := NameIndex.eq_of_resolveDotted? dotted_
      obtain ⟨t,there,rfl⟩ := List.mem_map.1 member
      have qualified : s.origin ++ '.' :: n.name = t.entry.qualified := by
        unfold Entry.qualified dotted
        rw [origin,name,if_neg (by simpa using filled)]
      rw [only t there (by rw [qualified]; exact List.mem_cons_self)]
    · exact (unchained.eq_of_resolve? bare ⟨member,.inr name.symm⟩).symm
  subst same
  exact other ⟨origin.symm,name.symm⟩

theorem requalify?_settled (unchained : x.Unchained) (filled : ∀ e ∈ x.all, e.space ≠ [])
    {ss : List FromImport} (new : s.requalify? x = some ss) {t : FromImport} (member : t ∈ ss) : t.requalify? x = none := by
  obtain ⟨homes,_,_,rfl⟩ := requalify?_parts new
  obtain ⟨home,_,rfl⟩ := List.mem_map.1 member
  rw [requalify?_eq_none_iff]
  intro n inside
  cases home with
  | none =>
    have stays : s.home? x n = none := by simpa using (List.mem_filter.1 inside).2
    exact home?_eq_none_iff.1 stays
  | some space =>
    obtain ⟨m,there,rfl⟩ := List.mem_map.1 inside
    have moved : s.home? x m = some space := by simpa using (List.mem_filter.1 there).2
    obtain ⟨e,found,rfl⟩ := Option.map_eq_some_iff.1 moved
    have known : e ∈ x.all := (movedTo?_cases found).1.elim NameIndex.mem_of_resolveDotted?
      fun bare => (NameIndex.mem_of_resolve? bare).1
    refine movedTo?_settled unchained known (filled e known) rfl ?_
    unfold renewed
    rw [found]

end FromImport

namespace Namer
open Steps

/-- A module is never without a name. -/
theorem Enrolled.filled {parser : ModuleParser} {package : Option Text} {session : Option Session}
    {x : NameIndex} (enrolled : Namer.Enrolled ⟨.modules parser,package,session⟩ x) {e : Entry}
    (member : e ∈ x.all) : e.space ≠ [] := by
  obtain ⟨r,inside,rfl⟩ := List.mem_map.1 member
  obtain ⟨source,old,new,rfl⟩ := enrolled r inside
  have filled := (Naming.simple_snake new).filled
  change dotted (Target.packageOf (.ofText source) package) (Naming.snake new) ≠ []
  unfold dotted
  split
  · exact filled
  · simp

/-- With the index of a project, an import either stays as it is, and then each of its names does, or it
gives way to statements that take the same names, each from where it is now, and stay themselves. -/
theorem imports_settle (parser : ModuleParser) (package : Option Text) (session : Option Session)
    (files : List (Text × Text)) :
    Obeys ((Namer.mk (.modules parser) package session).index files)
      (fun x => ∀ s : FromImport, (s.requalify? x = none ↔ ∀ n ∈ s.names, s.movedTo? x n = none) ∧
        ∀ ss, s.requalify? x = some ss → s.Requalified x ss)
      fun e => e = .notText ∧ ∃ s, session = some s ∧ ¬ s.service.SendsTexts :=
  (obeys_index_known (Target.counts_modules parser package) files).mono
    (fun _ ⟨enrolled,fresh⟩ _ => ⟨FromImport.requalify?_eq_none_iff,
      fun _ new => ⟨FromImport.requalify?_parts new,FromImport.requalify?_once new,fun _ member =>
        FromImport.requalify?_settled fresh.unchained (fun _ => enrolled.filled) new member⟩⟩) fun _ h => h

/-- Names that stay, a star and two names that went to other modules. -/
theorem imports_settle_insistent :
    let files : List (Text × Text) := [("c.src","class C"),("b/x.src","class A"),("a/x.src","class A")]
    let n : Namer := ⟨.modules noParsers.module,none,some (insistent "B")⟩
    let s : FromImport := ⟨some "a".toList,0,[⟨"C",none⟩,⟨"*",none⟩,⟨"A",some "First".toList⟩,⟨"D",none⟩]⟩
    let ss : List FromImport := [⟨some "a".toList,0,[⟨"*",none⟩,⟨"D",none⟩]⟩,
      ⟨some "b_2".toList,0,[⟨"B_2",none⟩]⟩,⟨some "a.b".toList,0,[⟨"B",some "First".toList⟩]⟩]
    ∃ x line, (n.index files).run.run {} = (.ok x,line) ∧ s.requalify? x = some ss ∧
      s.Requalified x ss := by
  intro files n s ss
  have ran : (match ((n.index files).run.run {}).1 with
    | .ok x => s.requalify? x
    | .error _ => none) = some ss := by decide +kernel
  have told := imports_settle noParsers.module none (some (insistent "B")) files
  cases same : (n.index files).run.run {} with
  | mk r line =>
    rw [same] at ran
    cases r with
    | ok x => exact ⟨x,line,rfl,ran,(told.ok same s).2 ss ran⟩
    | error e => cases ran

end Namer

end Recast
