import Mathlib.Data.List.Nodup
import Mathlib.Data.List.Pairwise
import Recast.Proofs.Dialogue.Session
import Recast.Proofs.Rename.Numbering
import Recast.Proofs.Target.Numbers

/-! New names are fresh. A type that changes its name takes one that no type of the project has had
and that no other type gets, so that a renaming neither joins two types nor goes on from one name to
the next. The search for such a name comes to an end. -/
namespace Recast
open Steps

namespace Namer

variable {n : Namer}

/-- A chosen name is not taken; it is the one that was asked for, or that one with a number. -/
theorem chosen_untaken {source name : Text}
    (counts : ∀ i j, n.outputOf source (numbered name i) = n.outputOf source (numbered name j) → i = j)
    (index : NameIndex) (olds : List Text) (old : Text) :
    n.taken index olds source old (n.chosen index olds source old name) = false ∧
      (n.chosen index olds source old name = name ∨
        ∃ i, n.chosen index olds source old name = numbered name i) := by
  obtain ⟨i,ends,_,found⟩ := chosen_ends index olds source old name fun i j same => counts i j same
  rw [found]
  split
  · exact ⟨ends.untaken,.inr ⟨i,rfl⟩⟩
  · rename_i untaken
    exact ⟨by simpa using untaken,.inl rfl⟩

/-- The entry that a file gets next. -/
def next (n : Namer) (index : NameIndex) (olds : List Text) (f : Unnamed) (name : Text) : Entry :=
  n.entry f.source f.old (n.chosen index olds f.source f.old name)

theorem next_new (index : NameIndex) (olds : List Text) (f : Unnamed) (name : Text) :
    (n.next index olds f name).new = n.chosen index olds f.source f.old name := rfl

theorem all_register (index : NameIndex) (olds : List Text) (f : Unnamed) (name : Text) :
    (n.register index olds f name).all = index.all ++ [n.next index olds f name] := by
  unfold register next
  simp [NameIndex.push,NameIndex.all]

/-- What holds of the empty index, and is kept as each file gets its entry, holds of the index of all
files. -/
theorem obeys_nameAll {Name : Text → Prop} {allowed : TalkError → Prop} {olds : List Text}
    (Held : List Unnamed → NameIndex → Prop) {fs : List Unnamed}
    (suggests : ∀ f ∈ fs, Obeys (n.suggested f.old f.content) Name allowed)
    (step : ∀ f ∈ fs, ∀ done index name, Name name → Held done index →
      Held (done ++ [f]) (n.register index olds f name))
    (frozen : ∀ done index, Held done index → Held done index.freeze)
    {index : NameIndex} (held : Held [] index) : Obeys (n.nameAll olds fs index) (Held fs) allowed := by
  have all (rest done : List Unnamed) (index : NameIndex) (within_ : ∀ f ∈ rest, f ∈ fs)
      (held : Held done index) : Obeys (n.nameAll olds rest index) (Held (done ++ rest)) allowed := by
    induction rest generalizing done index with
    | nil =>
      rw [List.append_nil]
      exact .pure (frozen _ _ held)
    | cons f rest ih =>
      have inside := within_ f (by simp)
      refine (suggests f inside).bind fun name named => ?_
      have kept := step f inside done index name named held
      have later := ih (done ++ [f]) _ (fun g member => within_ g (by simp [member])) kept
      simpa using later
  exact all fs [] index (fun _ member => member) held

/-- A name that comes back is the old one or an identifier. -/
theorem obeys_suggested_kind {Name : Text → Prop} {old : Text} (fine : Name old)
    (identifiers : ∀ name, Naming.isIdentifier name = true → Name name) (content : Text) :
    Obeys (n.suggested old content) Name fun _ => True := by
  have kept (candidate : Text) :
      Obeys (pure (if Naming.isIdentifier candidate then candidate else old) : Talk Text) Name
        fun _ => True := by
    split
    · rename_i identifier
      exact .pure (identifiers candidate identifier)
    · exact .pure fine
  unfold suggested
  split
  · exact .pure fine
  · rename_i s _
    have told : Obeys (s.suggestName old content) Name fun _ => True := by
      unfold Session.suggestName
      refine (Obeys.any _).bind fun reply _ => ?_
      dsimp only
      split
      · exact (Obeys.any _).bind fun candidate _ => kept candidate
      · exact kept _
    refine told.tryCatch fun e _ => ?_
    split
    · exact .pure fine
    · exact .throw trivial

/-- A name comes back unless the service answers with something else than a text. -/
theorem obeys_suggested_names (old content : Text) :
    Obeys (n.suggested old content) (fun _ => True)
      fun e => e = .notText ∧ ∃ s, n.session = some s ∧ ¬ s.service.SendsTexts := by
  unfold suggested
  cases found : n.session with
  | none => exact .pure trivial
  | some s =>
    by_cases sends : s.service.SendsTexts
    · refine (Session.obeys_suggestName sends old content).tryCatch fun e ⟨why,same⟩ => ?_
      subst same
      exact .pure trivial
    · have told : Obeys (s.suggestName old content) (fun _ => True)
          fun e => e = .notText ∨ e.Failed := by
        have text (reply : Reply) : Obeys (Session.replyText reply) (fun _ => True)
            fun e => e = .notText ∨ e.Failed := by
          cases reply with
          | text t => exact .pure trivial
          | other v => exact .throw (.inl rfl)
        unfold Session.suggestName
        refine ((Service.obeys_ask _).mono (fun _ h => h) fun _ => .inr).bind fun reply _ => ?_
        dsimp only
        split
        · exact ((text reply).map fun _ _ => trivial).bind fun _ (_ : True) => .pure trivial
        · exact .pure trivial
      refine told.tryCatch fun e failed => ?_
      rcases failed with rfl | ⟨why,rfl⟩
      · exact .throw ⟨rfl,s,rfl,sends⟩
      · exact .pure trivial

/-- Some files have these entries; a type that is renamed takes none of the old names and shares its
new one with no other type. -/
structure Fresh (olds : List Text) (fs : List Unnamed) (es : List Entry) : Prop where
  entries : es.map (fun e => (e.source,e.old)) = fs.map fun f => (f.source,f.old)
  unused : ∀ e ∈ es, e.new ≠ e.old → e.new ∉ olds
  apart : es.Pairwise fun d e => d.new = e.new → d.new = d.old ∧ e.new = e.old

theorem Fresh.old_mem {olds : List Text} {fs : List Unnamed} {es : List Entry}
    (fresh : Fresh olds fs es) (within : ∀ f ∈ fs, f.old ∈ olds) {e : Entry} (member : e ∈ es) :
    e.old ∈ olds := by
  have pair : (e.source,e.old) ∈ fs.map fun f => (f.source,f.old) := by
    rw [← fresh.entries]
    exact List.mem_map_of_mem member
  obtain ⟨f,inside,same⟩ := List.mem_map.1 pair
  rw [← (Prod.mk.inj same).2]
  exact within f inside

theorem Fresh.next {olds : List Text} {fs : List Unnamed} {index : NameIndex}
    (fresh : Fresh olds fs index.all) (counts : n.target.Counts n.package) {f : Unnamed}
    (member : f.old ∈ olds) (name : Text) :
    Fresh olds (fs ++ [f]) (index.all ++ [n.next index olds f name]) := by
  have free := (chosen_untaken (counts (.ofText f.source) name) index olds f.old).1
  change n.taken index olds f.source f.old (n.next index olds f name).new = false at free
  simp only [taken,Bool.or_eq_false_iff,Bool.and_eq_false_iff,bne_eq_false_iff_eq] at free
  have source : (n.next index olds f name).source = f.source := rfl
  have old : (n.next index olds f name).old = f.old := rfl
  generalize n.next index olds f name = e at free source old
  have fine (renamed : e.new ≠ e.old) : e.new ∉ olds ∧ ∀ d ∈ index.all, d.new ≠ e.new := by
    rw [old] at renamed
    obtain ⟨former,new⟩ := free.2.resolve_left renamed
    have other : ∀ d ∈ index.all, ¬ (d.new == e.new) = true := List.any_eq_false.1 new
    exact ⟨by simpa using former,fun d inside => by simpa using other d inside⟩
  refine ⟨?_,?_,List.pairwise_append.2 ⟨fresh.apart,List.pairwise_singleton _ _,?_⟩⟩
  · rw [List.map_append,List.map_append,fresh.entries]
    simp [source,old]
  · intro d inside
    rcases List.mem_append.1 inside with before | last
    · exact fresh.unused d before
    · rw [List.mem_singleton.1 last]
      exact fun renamed => (fine renamed).1
  · intro d before e_ last same
    rw [List.mem_singleton.1 last] at same ⊢
    -- An old name may be kept though an entry has it already; only a new one has to be free.
    have kept : e.new = e.old := Decidable.byContradiction fun renamed => (fine renamed).2 d before same
    refine ⟨Decidable.byContradiction fun renamed => fresh.unused d before renamed ?_,kept⟩
    rw [same,kept,old]
    exact member

/-- The index of some files is fresh. -/
theorem obeys_index_fresh (counts : n.target.Counts n.package) (files : List (Text × Text)) :
    Obeys (n.index files)
      (fun x => Fresh ((n.unnamed files).map Unnamed.old) (n.unnamed files) x.all)
      fun e => e = .notText ∧ ∃ s, n.session = some s ∧ ¬ s.service.SendsTexts := by
  have none_ : Fresh ((n.unnamed files).map Unnamed.old) [] NameIndex.empty.all :=
    ⟨rfl,(fun e inside => by cases inside),List.Pairwise.nil⟩
  refine obeys_nameAll (fun done x => Fresh ((n.unnamed files).map Unnamed.old) done x.all)
    (fun f _ => obeys_suggested_names f.old f.content) (fun f member done index name _ fresh => ?_)
    (fun _ _ fresh => fresh) none_
  rw [all_register]
  exact fresh.next counts (List.mem_map_of_mem member) name

/-- Entries of an index that tell the types of some files apart: every file has one, and no new name
of a type leads to another type. -/
structure Separate (n : Namer) (files : List (Text × Text)) (x : NameIndex) : Prop where
  apart : ∀ e ∈ x.all, ∀ f ∈ x.all, e ≠ f → e.new ≠ e.old → e.new ≠ f.old ∧ e.new ≠ f.new
  unused : ∀ e ∈ x.all, e.new ≠ e.old → ∀ f ∈ files, e.new ≠ n.oldName f.1 f.2
  keys : (x.renames.map Prod.fst).Nodup
  values : (x.renames.map Prod.snd).Nodup
  ends : ∀ r ∈ x.renames, r.2 ∉ x.renames.map Prod.fst ∧ ∀ f ∈ files, r.2 ≠ n.oldName f.1 f.2
  once : ∀ f ∈ files, ∃ e, x.bySource? f.1 = some e ∧ e.source = f.1 ∧ e.old = n.oldName f.1 f.2 ∧
    ∀ d ∈ x.all, d.source = f.1 ↔ d = e
  all : x.all.length = files.length

end Namer

namespace NameIndex

theorem mem_of_mem_firstOwners {seen : List Text} {es : List Entry} {e : Entry}
    (member : e ∈ firstOwners seen es) : e ∈ es ∧ e.old ∉ seen := by
  induction es generalizing seen with
  | nil => cases member
  | cons d es ih =>
    unfold firstOwners at member
    split at member
    · exact ⟨List.mem_cons_of_mem _ (ih member).1,(ih member).2⟩
    · rename_i unseen
      rcases List.mem_cons.1 member with rfl | later
      · exact ⟨by simp,by simpa using unseen⟩
      · obtain ⟨inside,other⟩ := ih later
        exact ⟨List.mem_cons_of_mem _ inside,fun known => other (List.mem_cons_of_mem _ known)⟩

theorem firstOwners_nodup (seen : List Text) (es : List Entry) :
    ((firstOwners seen es).map Entry.old).Nodup := by
  induction es generalizing seen with
  | nil => exact List.nodup_nil
  | cons d es ih =>
    unfold firstOwners
    split
    · exact ih seen
    · refine List.nodup_cons.2 ⟨fun inside => ?_,ih _⟩
      obtain ⟨e,member,same⟩ := List.mem_map.1 inside
      exact (mem_of_mem_firstOwners member).2 (by simp [same])

/-- A rename is that of an entry. -/
theorem of_mem_renames {x : NameIndex} {r : Text × Text} (member : r ∈ x.renames) :
    ∃ e ∈ x.all, r = (e.old,e.new) ∧ e.new ≠ e.old := by
  obtain ⟨e,owner,same⟩ := List.mem_filterMap.1 member
  refine ⟨e,(mem_of_mem_firstOwners owner).1,?_⟩
  split at same
  · cases same
  · rename_i renamed
    cases same
    exact ⟨rfl,by simpa using renamed⟩

theorem of_bySource? {x : NameIndex} {source : Text} {e : Entry}
    (found : x.bySource? source = some e) : e ∈ x.all ∧ e.source = source :=
  ⟨List.mem_reverse.1 (List.mem_of_find?_eq_some found),by simpa using List.find?_some found⟩

theorem exists_bySource? {x : NameIndex} {e : Entry} (member : e ∈ x.all) :
    ∃ d, x.bySource? e.source = some d := by
  rw [← Option.isSome_iff_exists,bySource?,List.find?_isSome]
  exact ⟨e,List.mem_reverse.2 member,by simp⟩

/-- Where no source has two entries, an entry is found under its own. -/
theorem bySource?_of_nodup {x : NameIndex} (once : (x.all.map Entry.source).Nodup) {e : Entry}
    (member : e ∈ x.all) : x.bySource? e.source = some e := by
  obtain ⟨d,found⟩ := exists_bySource? member
  obtain ⟨inside,source⟩ := of_bySource? found
  rw [found,List.inj_on_of_nodup_map once inside member source]

theorem renames_nodup (x : NameIndex) : (x.renames.map Prod.fst).Nodup := by
  have sub (es : List Entry) :
      ((es.filterMap fun e => if e.new == e.old then none else some (e.old,e.new)).map Prod.fst).Sublist
        (es.map Entry.old) := by
    induction es with
    | nil => exact .slnil
    | cons e es ih =>
      rw [List.filterMap_cons]
      split
      · exact ih.cons _
      · rename_i r same
        split at same
        · cases same
        · cases same
          exact ih.cons_cons _
  exact (sub _).nodup (firstOwners_nodup [] x.all)

end NameIndex

namespace Namer
variable {n : Namer}

theorem Fresh.sources {files : List (Text × Text)} {olds : List Text} {es : List Entry}
    (fresh : Fresh olds (n.unnamed files) es) :
    (es.map Entry.source).Perm (files.map Prod.fst) := by
  have paths := congrArg (List.map Prod.fst) fresh.entries
  unfold unnamed at paths
  simp only [List.map_map] at paths
  exact (List.Perm.of_eq paths).trans ((Ordered.sort_perm _ files).map Prod.fst)

theorem Fresh.separate {files : List (Text × Text)} {x : NameIndex}
    (fresh : Fresh ((n.unnamed files).map Unnamed.old) (n.unnamed files) x.all)
    (distinct : (files.map Prod.fst).Nodup) : n.Separate files x := by
  have known {f : Text × Text} (member : f ∈ files) :
      ⟨f.1,f.2,n.oldName f.1 f.2⟩ ∈ n.unnamed files :=
    List.mem_map.2 ⟨f,(Ordered.sort_perm _ files).mem_iff.2 member,rfl⟩
  have unused (e : Entry) (member : e ∈ x.all) (renamed : e.new ≠ e.old) (f : Text × Text)
      (file : f ∈ files) : e.new ≠ n.oldName f.1 f.2 := by
    intro same
    exact fresh.unused e member renamed (same ▸ List.mem_map_of_mem (known file))
  have apart (e : Entry) (left : e ∈ x.all) (f : Entry) (right : f ∈ x.all) (other : e ≠ f)
      (renamed : e.new ≠ e.old) : e.new ≠ f.old ∧ e.new ≠ f.new := by
    refine ⟨fun same => ?_,fun same => ?_⟩
    · have old := fresh.old_mem (fun g member => List.mem_map_of_mem member) right
      exact fresh.unused e left renamed (same ▸ old)
    · have symmetric : Std.Symm fun d g : Entry => d.new = g.new → d.new = d.old ∧ g.new = g.old :=
        ⟨fun d g either equal => (either equal.symm).symm⟩
      exact renamed (fresh.apart.forall left right other same).1
  have sources : (x.all.map Entry.source).Nodup := fresh.sources.nodup_iff.2 distinct
  refine ⟨apart,unused,x.renames_nodup,?_,?_,?_,?_⟩
  · refine List.Nodup.map_on (fun r left s right same => ?_) (List.Nodup.of_map _ x.renames_nodup)
    obtain ⟨e,inside,rfl,renamed⟩ := NameIndex.of_mem_renames left
    obtain ⟨f,within_,rfl,_⟩ := NameIndex.of_mem_renames right
    have equal : e = f := Decidable.byContradiction fun other =>
      (apart e inside f within_ other renamed).2 same
    rw [equal]
  · intro r member
    obtain ⟨e,inside,rfl,renamed⟩ := NameIndex.of_mem_renames member
    refine ⟨fun key => ?_,unused e inside renamed⟩
    obtain ⟨s,other,same⟩ := List.mem_map.1 key
    obtain ⟨f,within_,rfl,_⟩ := NameIndex.of_mem_renames other
    have old := fresh.old_mem (fun g member => List.mem_map_of_mem member) within_
    change f.old = e.new at same
    exact fresh.unused e inside renamed (same ▸ old)
  · intro f file
    have pair : (f.1,n.oldName f.1 f.2) ∈ x.all.map fun e => (e.source,e.old) := by
      rw [fresh.entries]
      exact List.mem_map.2 ⟨_,known file,rfl⟩
    obtain ⟨e,inside,same⟩ := List.mem_map.1 pair
    obtain ⟨source,old⟩ := Prod.mk.inj same
    have one (d : Entry) (member : d ∈ x.all) : d.source = f.1 ↔ d = e :=
      ⟨fun equal => List.inj_on_of_nodup_map sources member inside (equal.trans source.symm),
        fun equal => equal ▸ source⟩
    exact ⟨e,source ▸ NameIndex.bySource?_of_nodup sources inside,source,old,one⟩
  · simpa using fresh.sources.length_eq

end Namer

/-- In the index of a project's files no rename takes a name that any type has or gets. -/
theorem Registry.separate_index (r : Registry) (parsers : Parsers) (language : Text)
    (settings : Option LanguageSettings) (package : Option Text) (session : Option Session)
    (files : List (Text × Text)) (distinct : (files.map Prod.fst).Nodup) :
    Obeys ((Namer.mk (r.target parsers language settings) package session).index files)
      (Namer.Separate ⟨r.target parsers language settings,package,session⟩ files)
      fun e => e = .notText ∧ ∃ s, session = some s ∧ ¬ s.service.SendsTexts :=
  (Namer.obeys_index_fresh (r.counts_target parsers language settings package) files).mono
    (fun _ fresh => fresh.separate distinct) fun _ h => h

namespace Namer

/-- A service that has one name for every type. -/
def insistent (name : Text) : Session where
  service := {
    answer := fun _ _ => { outcome := .reply (.text ("<code>" ++ name ++ "</code>")) }
    reachable := .reply (.text "yes") }
  language := {
    target := "plain", inputExtension := ".src", outputExtension := ".out", prompt := "Translate." }
  run := {}

def noParsers : Parsers := ⟨⟨fun _ => none,fun _ => none⟩,fun _ => default⟩

/-- The name that is asked for is that of another type. -/
theorem separate_index_insistent :
    let files : List (Text × Text) := [("c.src","class C"),("a.src","class A"),("b.src","class B")]
    let renames : List (Text × Text) := [("A","B_1"),("C","B_2")]
    let n : Namer := ⟨Registry.standard.target noParsers "plain" none,none,some (insistent "B")⟩
    ∃ x line, (n.index files).run.run {} = (.ok x,line) ∧ x.renames = renames ∧ n.Separate files x := by
  intro files renames n
  have ran : (match ((n.index files).run.run {}).1 with
    | .ok x => x.renames
    | .error _ => []) = renames := by decide +kernel
  have told := Registry.separate_index Registry.standard noParsers "plain" none none
    (some (insistent "B")) files (by decide +kernel)
  cases same : (n.index files).run.run {} with
  | mk r line =>
    rw [same] at ran
    cases r with
    | ok x => exact ⟨x,line,rfl,ran,told.ok same⟩
    | error e => exact absurd ran (List.cons_ne_nil _ _).symm

end Namer

end Recast
