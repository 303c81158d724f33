import Recast.Proofs.Files.Tree
import Recast.Proofs.Progress.Table
import Recast.Proofs.Rename.Outputs
import Recast.Run.Layout

/-! The move of the files of a project to their final places: no file is moved onto another one, and
none is removed from a place where some file belongs. -/
namespace Recast

namespace Renaming
variable {target : Target} {index : NameIndex}

theorem map_fst_fileEach {files later : List (Text × Text)}
    (done : fileEach target index files = some later) : later.map Prod.fst = files.map Prod.fst := by
  induction files generalizing later with
  | nil =>
    cases done
    rfl
  | cons f rest ih =>
    unfold fileEach at done
    split at done
    · rename_i new more _ others
      cases done
      rw [List.map_cons,List.map_cons,ih others]
    · cases done

theorem map_fst_apply {bound : Nat} {files : List (Text × Text)} {report : RenamingReport}
    (done : apply target index bound files = some report) :
    (report.files.map Prod.fst).Perm (files.map Prod.fst) := by
  have all (left : Nat) (before after : RenamingReport)
      (ran : run target index left before = some after) :
      (after.files.map Prod.fst).Perm (before.files.map Prod.fst) := by
    induction left generalizing before with
    | zero =>
      cases ran
      exact .refl _
    | succ left ih =>
      unfold run at ran
      cases passed : pass target index before.files with
      | none =>
        rw [passed] at ran
        cases ran
      | some found =>
        rw [passed] at ran
        obtain ⟨each,fine,rfl⟩ := Option.map_eq_some_iff.1 passed
        have kept : (each.map Prod.fst).Perm (before.files.map Prod.fst) := by
          rw [map_fst_fileEach fine]
          exact (Ordered.sort_perm _ before.files).map Prod.fst
        dsimp only at ran
        split at ran
        · cases ran
          exact kept
        · exact (ih _ ran).trans kept
  exact all bound _ report done

end Renaming

namespace Converter
open Steps

theorem outputKey_inj {p : Progress} {s t : Text} (plain : Path.Plain s) (other : Path.Plain t)
    (same : outputKey p s = outputKey p t) : s = t := Key.child_inj plain other same

theorem outputKey_congr {p q : Progress} (same : q.output = p.output) (o : Text) :
    outputKey q o = outputKey p o := by
  unfold outputKey
  rw [same]

/-- The place that a file leaves, if no file belongs there. -/
def left? (p : Progress) (finals : List Text) (e : Entry) : Option Text :=
  (p.outputs.get? e.source).filter fun old => !(old.isEmpty || old == e.output || finals.contains old)

/-- What a file leaves does not depend on where another one went. -/
theorem left?_set (p : Progress) (finals : List Text) {e : Entry} {a : Text} (other : e.source ≠ a)
    (o : Text) : left? { p with outputs := p.outputs.set a o } finals e = left? p finals e := by
  unfold left?
  dsimp only
  rw [Table.get?_set,if_neg other]

/-- What the move of one file did to a tree: the file is placed, what it leaves is gone, and no other
place was touched. -/
structure Shifted (p : Progress) (finals : List Text) (e : Entry) (content : Text) (t later : Tree) :
    Prop where
  folders : ∀ k, t.isFolder k = true → later.isFolder k = true
  files : ∀ k, (∀ old, left? p finals e = some old → outputKey p old ≠ k) → later.file? k =
    if k = outputKey p e.output then some (.text content) else t.file? k
  absent : ∀ k, k ≠ outputKey p e.output → t.file? k = none → later.file? k = none
  gone : ∀ old, left? p finals e = some old → t.isFolder (outputKey p old).dropLast = true →
    later.file? (outputKey p old) = none

/-- A move places the file, and what it leaves is removed then. -/
theorem moveOutput_ok {p : Progress} {finals : List Text} {e : Entry} {content : Text} {t later : Tree}
    (moved : moveOutput p finals e content t = .ok later) :
    ∃ between, t.place (outputKey p e.output) (.text content) = .ok between ∧
      ((left? p finals e = none ∧ later = between) ∨
        ∃ old, left? p finals e = some old ∧ between.remove (outputKey p old) = .ok later) := by
  unfold moveOutput at moved
  obtain ⟨between,placed,moved⟩ := ok_of_bind moved
  refine ⟨between,placed,?_⟩
  unfold left?
  cases held : p.outputs.get? e.source with
  | none =>
    rw [held] at moved
    cases moved
    exact .inl ⟨rfl,rfl⟩
  | some old =>
    rw [held] at moved
    dsimp only at moved
    rw [Option.filter_some]
    split at moved
    · rename_i kept
      cases moved
      rw [kept]
      exact .inl ⟨rfl,rfl⟩
    · rename_i unused
      rw [Bool.eq_false_iff.2 unused]
      exact .inr ⟨old,rfl,moved⟩

/-- The folder that a file is moved to is there. -/
theorem isFolder_moveOutput {p : Progress} {finals : List Text} {e : Entry} {content : Text}
    {t later : Tree} (moved : moveOutput p finals e content t = .ok later) :
    later.isFolder (outputKey p e.output).dropLast = true := by
  obtain ⟨between,placed,⟨_,rfl⟩ | ⟨old,_,removed⟩⟩ := moveOutput_ok moved
  · exact (Tree.isFolder_place placed).1
  · rw [Tree.isFolder_remove removed]
    exact (Tree.isFolder_place placed).1

theorem shifted_moveOutput {p : Progress} {finals : List Text} {e : Entry} {content : Text}
    {t later : Tree} (moved : moveOutput p finals e content t = .ok later) :
    Shifted p finals e content t later := by
  obtain ⟨between,placed,⟨stays,rfl⟩ | ⟨old,leaves,removed⟩⟩ := moveOutput_ok moved
  · refine ⟨(Tree.isFolder_place placed).2,fun k _ => Tree.file?_place placed k,?_,?_⟩
    · intro k other absent
      rw [Tree.file?_place placed,if_neg other,absent]
    · intro old held
      rw [stays] at held
      cases held
  · have folders := (Tree.isFolder_place placed).2
    have files := Tree.file?_place placed
    constructor
    · intro k folder
      rw [Tree.isFolder_remove removed]
      exact folders k folder
    · intro k apart
      rw [Tree.file?_remove removed (Ne.symm (apart old leaves)),files]
    · intro k other absent
      apply Tree.file?_remove_none removed
      rw [files,if_neg other,absent]
    · intro old_ same root
      rw [leaves] at same
      cases same
      rw [Tree.file?_removed removed (folders _ root),if_pos rfl]

/-- A file without an entry is passed over; another one is moved, which is noted. -/
theorem run_moveAll (index : NameIndex) (finals : List Text) (f : Text × Text) (rest : List (Text × Text))
    (p : Progress) (files : List Converted) (w : World) :
    (moveAll index finals (f :: rest) p files).run.run w =
      match index.bySource? f.1 with
      | none => (moveAll index finals rest p files).run.run w
      | some e =>
        let q := { p with outputs := p.outputs.set f.1 e.output }
        match moveOutput p finals e f.2 w.tree with
        | .error fault => (.error (.file fault),w)
        | .ok t => (moveAll index finals rest q (RunResult.updateLast f.1 (moved e f.2) files)).run.run
            { w with tree := t, deeds := .wrote f.1 f.2 :: w.deeds, progress := some q } := by
  conv => lhs; unfold moveAll
  cases index.bySource? f.1 with
  | none => rfl
  | some e =>
    dsimp only
    rw [run_bind,Run.run_files]
    cases moveOutput p finals e f.2 w.tree with
    | error fault => rfl
    | ok t => rfl

/-- A move that comes to its end passes over its first file, or it moves it. -/
theorem moveAll_cons {index : NameIndex} {finals : List Text} {f : Text × Text} {rest : List (Text × Text)}
    {p q : Progress} {files files_ : List Converted} {w v : World}
    (ran : (moveAll index finals (f :: rest) p files).run.run w = (.ok (q,files_),v)) :
    (index.bySource? f.1 = none ∧ (moveAll index finals rest p files).run.run w = (.ok (q,files_),v)) ∨
    ∃ e t, index.bySource? f.1 = some e ∧ moveOutput p finals e f.2 w.tree = .ok t ∧
      (moveAll index finals rest { p with outputs := p.outputs.set f.1 e.output }
        (RunResult.updateLast f.1 (moved e f.2) files)).run.run
          { w with tree := t, deeds := .wrote f.1 f.2 :: w.deeds,
                   progress := some { p with outputs := p.outputs.set f.1 e.output } } =
        (.ok (q,files_),v) := by
  rw [run_moveAll] at ran
  cases found : index.bySource? f.1 with
  | none =>
    rw [found] at ran
    exact .inl ⟨rfl,ran⟩
  | some e =>
    rw [found] at ran
    dsimp only at ran
    cases placed : moveOutput p finals e f.2 w.tree with
    | error fault =>
      rw [placed] at ran
      cases ran
    | ok t =>
      rw [placed] at ran
      exact .inr ⟨e,t,rfl,placed,ran⟩

/-- An entry for each of some files. -/
structure Listed (index : NameIndex) (contents : List (Text × Text)) : Prop where
  distinct : (contents.map Prod.fst).Nodup
  entry : ∀ a ∈ contents.map Prod.fst, ∃ e, index.bySource? a = some e ∧ e.source = a

namespace Listed
variable {index : NameIndex} {contents rest : List (Text × Text)} {f : Text × Text} {a : Text} {d e : Entry}

theorem source (listed : Listed index contents) (member : a ∈ contents.map Prod.fst)
    (found : index.bySource? a = some e) : e.source = a := by
  obtain ⟨e_,found_,source⟩ := listed.entry a member
  rw [found] at found_
  cases found_
  exact source

theorem tail (listed : Listed index (f :: rest)) : Listed index rest :=
  ⟨(List.nodup_cons.1 listed.distinct).2,fun a member => listed.entry a (List.mem_cons_of_mem _ member)⟩

theorem ne_first (listed : Listed index (f :: rest)) (member : a ∈ rest.map Prod.fst) : a ≠ f.1 :=
  fun same => (List.nodup_cons.1 listed.distinct).1 (same ▸ member)

end Listed

/-- What a move did to the progress and to the tree, whatever the paths of the files are: their texts
are placed, what they leave is gone, and all else is as it was. -/
structure Relocated (index : NameIndex) (finals : List Text) (contents : List (Text × Text))
    (p q : Progress) (w v : World) : Prop where
  outcomes : q.outcomes = p.outcomes
  output : q.output = p.output
  id : q.id = p.id
  deeds : v.deeds = (contents.map fun f => Deed.wrote f.1 f.2).reverse ++ w.deeds
  outputs : ∀ a ∈ contents.map Prod.fst, ∀ e, index.bySource? a = some e →
    q.outputs.get? a = some e.output
  others : ∀ a ∉ contents.map Prod.fst, q.outputs.get? a = p.outputs.get? a
  single : p.outputs.names.Nodup → q.outputs.names.Nodup
  folders : ∀ k, w.tree.isFolder k = true → v.tree.isFolder k = true
  kept : ∀ k, (∀ a ∈ contents.map Prod.fst, ∀ e, index.bySource? a = some e →
      outputKey p e.output ≠ k ∧ ∀ old, left? p finals e = some old → outputKey p old ≠ k) →
    v.tree.file? k = w.tree.file? k
  absent : ∀ k, (∀ a ∈ contents.map Prod.fst, ∀ e, index.bySource? a = some e →
      outputKey p e.output ≠ k) → w.tree.file? k = none → v.tree.file? k = none
  files : ∀ f ∈ contents, ∀ e, index.bySource? f.1 = some e →
    (∀ a ∈ contents.map Prod.fst, ∀ d, index.bySource? a = some d →
      (outputKey p d.output = outputKey p e.output → d = e) ∧
        ∀ old, left? p finals d = some old → outputKey p old ≠ outputKey p e.output) →
    v.tree.file? (outputKey p e.output) = some (.text f.2)
  gone : ∀ a ∈ contents.map Prod.fst, ∀ e, index.bySource? a = some e → ∀ old,
    left? p finals e = some old → w.tree.isFolder (outputKey p old).dropLast = true →
    (∀ b ∈ contents.map Prod.fst, ∀ d, index.bySource? b = some d →
      outputKey p d.output ≠ outputKey p old) → v.tree.file? (outputKey p old) = none

namespace Relocated
variable {index : NameIndex} {finals : List Text} {rest : List (Text × Text)} {p q : Progress}
  {w u v : World} {content : Text} {e : Entry}

theorem nil (p : Progress) (w : World) : Relocated index finals [] p p w w :=
  ⟨rfl,rfl,rfl,rfl,by simp,fun _ _ => rfl,fun single => single,fun _ folder => folder,
    fun _ _ => rfl,fun _ _ absent => absent,by simp,by simp⟩

/-- One file is moved, and then the others. -/
theorem cons (listed : Listed index ((e.source,content) :: rest)) (found : index.bySource? e.source = some e)
    (step : Shifted p finals e content w.tree u.tree) (deeds : u.deeds = .wrote e.source content :: w.deeds)
    (later : Relocated index finals rest { p with outputs := p.outputs.set e.source e.output } q u v) :
    Relocated index finals ((e.source,content) :: rest) p q w v := by
  have unlike (b : Text) (member : b ∈ rest.map Prod.fst) (d : Entry)
      (same : index.bySource? b = some d) : d.source ≠ e.source := by
    rw [listed.tail.source member same]
    exact listed.ne_first member
  -- The former places of the files to come do not depend on the file that has been moved.
  have leftLater (b : Text) (member : b ∈ rest.map Prod.fst) (d : Entry)
      (same : index.bySource? b = some d) :
      left? { p with outputs := p.outputs.set e.source e.output } finals d = left? p finals d :=
    left?_set p finals (unlike b member d same) e.output
  refine ⟨later.outcomes,later.output,later.id,?_,?_,?_,?_,?_,?_,?_,?_,?_⟩
  · rw [later.deeds,deeds]
    simp
  · intro b member d same
    rcases List.mem_cons.1 member with rfl | tail
    · rw [found] at same
      cases same
      rw [later.others _ fun tail => listed.ne_first tail rfl]
      exact (Table.get?_set _ _ _ _).trans (if_pos rfl)
    · exact later.outputs b tail d same
  · intro b none_
    rw [later.others b fun tail => none_ (List.mem_cons_of_mem _ tail)]
    exact (Table.get?_set _ _ _ _).trans (if_neg fun same => none_ (by simp [same]))
  · exact fun single => later.single (Table.nodup_set single _ _)
  · exact fun k folder => later.folders k (step.folders k folder)
  · intro k apart
    obtain ⟨other,away⟩ := apart e.source (by simp) e found
    have kept := later.kept k fun b member d same => by
      rw [leftLater b member d same]
      exact apart b (by simp [member]) d same
    rw [kept]
    exact (step.files k away).trans (if_neg (Ne.symm other))
  · intro k apart none_
    apply later.absent k fun b member => apart b (by simp [member])
    exact step.absent k (Ne.symm (apart e.source (by simp) e found)) none_
  · intro g member d same alone
    rcases List.mem_cons.1 member with rfl | tail
    · rw [found] at same
      cases same
      -- Placed by this move, the text stays: no later file goes there, and none leaves the place.
      have kept := later.kept (outputKey p e.output) fun b inside d given => by
        rw [leftLater b inside d given]
        obtain ⟨apart,away⟩ := alone b (by simp [inside]) d given
        exact ⟨fun equal => unlike b inside d given (congrArg Entry.source (apart equal)),away⟩
      refine kept.trans ((step.files _ ?_).trans (if_pos rfl))
      exact (alone e.source (by simp) e found).2
    · apply later.files g tail d same
      intro b inside given_ given
      rw [leftLater b inside given_ given]
      exact alone b (by simp [inside]) given_ given
  · intro b member d same old leaves root alone
    have away (b : Text) (inside : b ∈ rest.map Prod.fst) := alone b (by simp [inside])
    rcases List.mem_cons.1 member with rfl | tail
    · rw [found] at same
      cases same
      exact later.absent _ away (step.gone old leaves root)
    · rw [← leftLater b tail d same] at leaves
      exact later.gone b tail d same old leaves (step.folders _ root) away

end Relocated

/-- The files of a project are moved one after the other. -/
theorem relocated_moveAll {index : NameIndex} {finals : List Text} {contents : List (Text × Text)}
    {p q : Progress} {files files_ : List Converted} {w v : World} (listed : Listed index contents)
    (ran : (moveAll index finals contents p files).run.run w = (.ok (q,files_),v)) :
    Relocated index finals contents p q w v := by
  induction contents generalizing p files w with
  | nil =>
    cases ran
    exact .nil _ _
  | cons f rest ih =>
    obtain ⟨a,content⟩ := f
    obtain ⟨e,found,rfl⟩ := listed.entry a (by simp)
    rcases moveAll_cons ran with ⟨none_,_⟩ | ⟨d,t,found_,placed,ran⟩
    · rw [found] at none_
      cases none_
    · rw [found] at found_
      cases found_
      exact .cons listed found (shifted_moveOutput placed) rfl (ih listed.tail ran)

/-- What a move needs: an entry with a plain output for each file, no output twice, all of them
final, and plain former outputs. -/
structure Movable (index : NameIndex) (finals : List Text) (contents : List (Text × Text))
    (p : Progress) : Prop where
  distinct : (contents.map Prod.fst).Nodup
  entry : ∀ a ∈ contents.map Prod.fst, ∃ e, index.bySource? a = some e ∧ e.source = a ∧
    Path.Plain e.output ∧ e.output ∈ finals
  apart : ∀ a b d e, index.bySource? a = some d → index.bySource? b = some e →
    d.output = e.output → a = b
  former : ∀ a ∈ contents.map Prod.fst, ∀ old, p.outputs.get? a = some old → Path.Plain old

/-- What a move did: every file has its text at its final place, and the progress says so. -/
structure Moved (index : NameIndex) (finals : List Text) (contents : List (Text × Text))
    (p q : Progress) (w v : World) : Prop where
  outcomes : q.outcomes = p.outcomes
  output : q.output = p.output
  id : q.id = p.id
  deeds : v.deeds = (contents.map fun f => Deed.wrote f.1 f.2).reverse ++ w.deeds
  outputs : ∀ a ∈ contents.map Prod.fst, ∀ e, index.bySource? a = some e →
    q.outputs.get? a = some e.output
  others : ∀ a ∉ contents.map Prod.fst, q.outputs.get? a = p.outputs.get? a
  single : p.outputs.names.Nodup → q.outputs.names.Nodup
  files : ∀ f ∈ contents, ∀ e, index.bySource? f.1 = some e →
    v.tree.file? (outputKey p e.output) = some (.text f.2)
  kept : ∀ o ∈ finals, Path.Plain o →
    (∀ a ∈ contents.map Prod.fst, ∀ e, index.bySource? a = some e → o ≠ e.output) →
    v.tree.file? (outputKey p o) = w.tree.file? (outputKey p o)

/-- The files of a project are moved one after the other, and each stays where it was moved to. -/
theorem moved_moveAll {index : NameIndex} {finals : List Text} {contents : List (Text × Text)}
    {p q : Progress} {files files_ : List Converted} {w v : World}
    (movable : Movable index finals contents p)
    (ran : (moveAll index finals contents p files).run.run w = (.ok (q,files_),v)) :
    Moved index finals contents p q w v := by
  have listed : Listed index contents := ⟨movable.distinct,fun a member => by
    obtain ⟨e,found,source,_⟩ := movable.entry a member
    exact ⟨e,found,source⟩⟩
  have done := relocated_moveAll listed ran
  have known (a : Text) (member : a ∈ contents.map Prod.fst) (e : Entry)
      (found : index.bySource? a = some e) : Path.Plain e.output ∧ e.output ∈ finals := by
    obtain ⟨e_,found_,_,rest⟩ := movable.entry a member
    rw [found] at found_
    cases found_
    exact rest
  have away (a : Text) (member : a ∈ contents.map Prod.fst) (e : Entry)
      (found : index.bySource? a = some e) (o : Text) (plain : Path.Plain o) (final : o ∈ finals)
      (old : Text) (leaves : left? p finals e = some old) : outputKey p old ≠ outputKey p o := by
    obtain ⟨held,unused⟩ := Option.filter_eq_some_iff.1 leaves
    rw [listed.source member found] at held
    intro same
    rw [outputKey_inj (movable.former a member old held) plain same] at unused
    simp [final] at unused
  refine ⟨done.outcomes,done.output,done.id,done.deeds,done.outputs,done.others,done.single,?_,?_⟩
  · intro f member e found
    have inside : f.1 ∈ contents.map Prod.fst := List.mem_map_of_mem member
    obtain ⟨plain,final⟩ := known f.1 inside e found
    apply done.files f member e found
    intro a member_ d found_
    have plain_ := (known a member_ d found_).1
    refine ⟨fun same => ?_,away a member_ d found_ e.output plain final⟩
    have equal := movable.apart a f.1 d e found_ found (outputKey_inj plain_ plain same)
    rw [equal,found] at found_
    exact (Option.some.inj found_).symm
  · intro o final plain unlike
    apply done.kept
    intro a member e found
    refine ⟨fun same => ?_,away a member e found o plain final⟩
    exact unlike a member e found (outputKey_inj plain (known a member e found).1 same.symm)

theorem sublist_completedContents {p : Progress} {t : Tree} {sources : List Text}
    {contents : List (Text × Text)} (read : completedContents p t sources = .ok contents) :
    (contents.map Prod.fst).Sublist sources := by
  induction sources generalizing contents with
  | nil =>
    cases read
    exact .slnil
  | cons a rest ih =>
    unfold completedContents at read
    split at read
    · exact (ih read).cons a
    · obtain ⟨text,_,read⟩ := ok_of_bind read
      obtain ⟨more,others,read⟩ := ok_of_bind read
      cases read
      exact (ih others).cons_cons a

theorem map_fst_completedContents {p : Progress} {t : Tree} {sources : List Text}
    {contents : List (Text × Text)} (read : completedContents p t sources = .ok contents)
    (there : ∀ a ∈ sources, ∃ o, p.outputs.get? a = some o ∧ o ≠ [] ∧ t.isFile (outputKey p o) = true) :
    contents.map Prod.fst = sources := by
  induction sources generalizing contents with
  | nil =>
    cases read
    rfl
  | cons a rest ih =>
    obtain ⟨o,output,filled,file⟩ := there a (by simp)
    unfold completedContents at read
    rw [output] at read
    have kept : (some o).filter (fun o => !o.isEmpty && t.exists? (outputKey p o)) = some o := by
      simp [Option.filter,filled,Tree.exists?,file]
    rw [kept] at read
    obtain ⟨text,_,read⟩ := ok_of_bind read
    obtain ⟨more,others,read⟩ := ok_of_bind read
    cases read
    rw [List.map_cons,ih others fun b member => there b (by simp [member])]

theorem of_mem_completedContents {p : Progress} {t : Tree} {sources : List Text}
    {contents : List (Text × Text)} (read : completedContents p t sources = .ok contents)
    {f : Text × Text} (member : f ∈ contents) :
    ∃ o, p.outputs.get? f.1 = some o ∧ t.readText (outputKey p o) = .ok f.2 := by
  induction sources generalizing contents with
  | nil =>
    cases read
    cases member
  | cons a rest ih =>
    unfold completedContents at read
    split at read
    · exact ih read member
    · rename_i o held
      obtain ⟨text,here,read⟩ := ok_of_bind read
      obtain ⟨more,others,read⟩ := ok_of_bind read
      cases read
      rcases List.mem_cons.1 member with rfl | later
      · exact ⟨o,(Option.filter_eq_some_iff.1 held).1,here⟩
      · exact ih others later

/-- A file of a result once some files were moved. -/
def retold (index : NameIndex) (contents : List (Text × Text)) (f : Converted) : Converted :=
  match contents.find? fun g => g.1 == f.source with
  | none => f
  | some g => match index.bySource? f.source with
    | none => f
    | some e => moved e g.2 f

theorem outcome_retold (index : NameIndex) (contents : List (Text × Text)) (f : Converted) :
    (retold index contents f).outcome = f.outcome := by
  unfold retold
  split
  · rfl
  · split
    · rfl
    · rfl

theorem retold_of_notMem {index : NameIndex} {contents : List (Text × Text)} {f : Converted}
    (absent : f.source ∉ contents.map Prod.fst) : retold index contents f = f := by
  have none_ : contents.find? (fun g => g.1 == f.source) = none :=
    List.find?_eq_none.2 fun g member same => absent (List.mem_map.2 ⟨g,member,by simpa using same⟩)
  unfold retold
  rw [none_]

theorem retold_cons_of_ne (index : NameIndex) {g : Text × Text} (rest : List (Text × Text)) {f : Converted}
    (other : f.source ≠ g.1) : retold index (g :: rest) f = retold index rest f := by
  unfold retold
  rw [List.find?_cons_of_neg (by simp [Ne.symm other])]

theorem retold_cons_of_eq (index : NameIndex) {g : Text × Text} (rest : List (Text × Text)) {f : Converted}
    (same : f.source = g.1) : retold index (g :: rest) f =
      match index.bySource? g.1 with
      | none => f
      | some e => moved e g.2 f := by
  unfold retold
  rw [List.find?_cons_of_pos (by simp [same]),same]

/-- A file that was moved has its new output and its new text. -/
theorem retold_of_mem {index : NameIndex} {contents : List (Text × Text)} {f : Converted} {e : Entry}
    (member : f.source ∈ contents.map Prod.fst) (found : index.bySource? f.source = some e) :
    ∃ g ∈ contents, g.1 = f.source ∧ retold index contents f = moved e g.2 f := by
  obtain ⟨h,inside,same⟩ := List.mem_map.1 member
  cases first : contents.find? fun g => g.1 == f.source with
  | none => exact absurd (by simpa using same) (List.find?_eq_none.1 first h inside)
  | some g =>
    refine ⟨g,List.mem_of_find?_eq_some first,by simpa using List.find?_some first,?_⟩
    unfold retold
    rw [first,found]

theorem updateLast_eq {source : Text} {change : Converted → Converted} {files : List Converted}
    (distinct : (files.map Converted.source).Nodup) :
    RunResult.updateLast source change files =
      files.map fun f => if f.source = source then change f else f := by
  induction files with
  | nil => rfl
  | cons f rest ih =>
    obtain ⟨fresh,distinct⟩ := List.nodup_cons.1 distinct
    have others (same : f.source = source) :
        rest.map (fun g => if g.source = source then change g else g) = rest := by
      refine (List.map_congr_left fun g member => if_neg fun equal => ?_).trans (List.map_id rest)
      exact fresh (List.mem_map.2 ⟨g,member,equal.trans same.symm⟩)
    unfold RunResult.updateLast
    rw [List.map_cons]
    split
    · rename_i later
      obtain ⟨g,member,same⟩ := List.any_eq_true.1 later
      rw [ih distinct,if_neg fun equal => fresh (List.mem_map.2 ⟨g,member,by simpa [equal] using same⟩)]
    · split
      · rename_i mine
        have same : f.source = source := by simpa using mine
        rw [if_pos same,others same]
      · rename_i last other
        have unlike : ∀ g ∈ rest, g.source ≠ source := by simpa using last
        rw [if_neg (by simpa using other)]
        refine congrArg (f :: ·) ((List.map_congr_left fun g member => if_neg ?_).trans (List.map_id rest)).symm
        exact unlike g member

/-- The files of a result follow the files that are moved. -/
theorem retold_moveAll {index : NameIndex} {finals : List Text} {contents : List (Text × Text)}
    {p q : Progress} {files files_ : List Converted} {w v : World}
    (paths : (contents.map Prod.fst).Nodup) (distinct : (files.map Converted.source).Nodup)
    (ran : (moveAll index finals contents p files).run.run w = (.ok (q,files_),v)) :
    files_ = files.map (retold index contents) := by
  induction contents generalizing p files w with
  | nil =>
    cases ran
    exact (List.map_id _).symm
  | cons g rest ih =>
    obtain ⟨fresh,paths⟩ := List.nodup_cons.1 paths
    rcases moveAll_cons ran with ⟨found,ran⟩ | ⟨e,_,found,_,ran⟩
    · rw [ih paths distinct ran]
      refine List.map_congr_left fun f _ => ?_
      by_cases same : f.source = g.1
      · rw [retold_of_notMem (same ▸ fresh),retold_cons_of_eq index rest same,found]
      · rw [retold_cons_of_ne index rest same]
    · have kept (f : Converted) : (moved e g.2 f).source = f.source := rfl
      have still : ((RunResult.updateLast g.1 (moved e g.2) files).map Converted.source).Nodup := by
        rw [RunResult.map_updateLast kept]
        exact distinct
      rw [ih paths still ran,updateLast_eq distinct,List.map_map]
      refine List.map_congr_left fun f _ => ?_
      by_cases same : f.source = g.1
      · have absent : (moved e g.2 f).source ∉ rest.map Prod.fst := same ▸ fresh
        rw [Function.comp_apply,if_pos same,retold_of_notMem absent,retold_cons_of_eq index rest same,found]
      · rw [Function.comp_apply,if_neg same,retold_cons_of_ne index rest same]

/-- A move changes nothing of a file but its output and its content. -/
theorem map_moveAll {β : Type} {seen : Converted → β} (kept : ∀ e content f, seen (moved e content f) = seen f)
    {index : NameIndex} {finals : List Text} {contents : List (Text × Text)}
    {p q : Progress} {files files_ : List Converted} {w v : World}
    (ran : (moveAll index finals contents p files).run.run w = (.ok (q,files_),v)) :
    files_.map seen = files.map seen := by
  induction contents generalizing p files w with
  | nil =>
    cases ran
    rfl
  | cons f rest ih =>
    rcases moveAll_cons ran with ⟨_,ran⟩ | ⟨e,_,_,_,ran⟩
    · exact ih ran
    · exact (ih ran).trans (RunResult.map_updateLast (kept e f.2) files)

/-- A move changes no outcome, and it is not reported. -/
theorem kept_moveAll {index : NameIndex} {finals : List Text} {contents : List (Text × Text)}
    {p q : Progress} {files files_ : List Converted} {w v : World}
    (ran : (moveAll index finals contents p files).run.run w = (.ok (q,files_),v)) :
    q.outcomes = p.outcomes ∧ v.events = w.events := by
  induction contents generalizing p files w with
  | nil =>
    cases ran
    exact ⟨rfl,rfl⟩
  | cons f rest ih =>
    rcases moveAll_cons ran with ⟨_,ran⟩ | ⟨_,_,_,_,ran⟩
    · exact ih ran
    · have later := ih ran
      exact later

variable {c : Converter}

theorem run_layOut_nil {p : Progress} {result : RunResult} {w : World}
    (read : completedContents p w.tree p.completedPaths = .ok []) :
    (c.layOut p result).run.run w = (.ok (p,result),w) := by
  unfold layOut
  rw [run_bind,run_get]
  dsimp only
  rw [read]
  rfl

/-- Files that are there are moved as they come out of the renaming. -/
theorem run_layOut_cons {p : Progress} {result : RunResult} {w : World} {contents : List (Text × Text)}
    {index : NameIndex} {line : Line} {report : RenamingReport} (filled : contents ≠ [])
    (read : completedContents p w.tree p.completedPaths = .ok contents)
    (told : (c.namer.index contents).run.run w.line = (.ok index,line))
    (renamed : Renaming.apply c.target index c.settings.run.maxPasses contents = some report) :
    (c.layOut p result).run.run w = (do
      let (p,files) ← moveAll index ((report.files.filterMap fun f => index.bySource? f.1).map Entry.output)
        report.files p result.files
      c.emit (c.renamingEvent report)
      return (p,{ result with files := files, passes := report.passes,
                              converged := report.converged }) : Run (Progress × RunResult)).run.run
        { w with line := line } := by
  unfold layOut
  rw [run_bind,run_get]
  dsimp only
  rw [read]
  cases contents with
  | nil => exact absurd rfl filled
  | cons f rest =>
    dsimp only
    rw [run_bind,Run.run_talk,told]
    dsimp only [Except.mapError]
    rw [renamed]

/-- Files are indexed, renamed and moved, and that is reported, or there are none. -/
theorem run_layOut_whole {p q : Progress} {result later : RunResult} {w v : World}
    (ran : (c.layOut p result).run.run w = (.ok (q,later),v)) :
    (completedContents p w.tree p.completedPaths = .ok [] ∧ q = p ∧ later = result ∧ v = w) ∨
    ∃ contents index line report files after, contents ≠ [] ∧
      completedContents p w.tree p.completedPaths = .ok contents ∧
      (c.namer.index contents).run.run w.line = (.ok index,line) ∧
      Renaming.apply c.target index c.settings.run.maxPasses contents = some report ∧
      (moveAll index ((report.files.filterMap fun f => index.bySource? f.1).map Entry.output)
        report.files p result.files).run.run { w with line := line } = (.ok (q,files),after) ∧
      later = { result with files := files, passes := report.passes, converged := report.converged } ∧
      v = after.publish c.watches (c.renamingEvent report) := by
  unfold layOut at ran
  obtain ⟨_,_,first,ran⟩ := ok_of_run_bind ran
  cases first
  cases read : completedContents p w.tree p.completedPaths with
  | error fault =>
    rw [read] at ran
    cases ran
  | ok contents =>
    rw [read] at ran
    cases contents with
    | nil =>
      cases ran
      exact .inl ⟨rfl,rfl,rfl,rfl⟩
    | cons f rest =>
      obtain ⟨index,between,told,ran⟩ := ok_of_run_bind ran
      rw [Run.run_talk] at told
      cases same : (c.namer.index (f :: rest)).run.run w.line with
      | mk r line =>
        rw [same] at told
        cases r with
        | error e => cases told
        | ok x =>
          cases told
          cases renamed : Renaming.apply c.target index c.settings.run.maxPasses (f :: rest) with
          | none =>
            rw [renamed] at ran
            cases ran
          | some report =>
            rw [renamed] at ran
            obtain ⟨⟨q_,files⟩,after,moved,ran⟩ := ok_of_run_bind ran
            obtain ⟨_,_,last,ran⟩ := ok_of_run_bind ran
            cases last
            cases ran
            exact .inr ⟨_,index,line,report,files,after,by simp,rfl,same,renamed,moved,rfl,rfl⟩

theorem run_layOut {p q : Progress} {result later : RunResult} {w v : World}
    (ran : (c.layOut p result).run.run w = (.ok (q,later),v)) :
    (completedContents p w.tree p.completedPaths = .ok [] ∧ q = p ∧ later = result ∧ v = w) ∨
    ∃ contents index line report after, contents ≠ [] ∧
      completedContents p w.tree p.completedPaths = .ok contents ∧
      (c.namer.index contents).run.run w.line = (.ok index,line) ∧
      Renaming.apply c.target index c.settings.run.maxPasses contents = some report ∧
      (moveAll index ((report.files.filterMap fun f => index.bySource? f.1).map Entry.output)
        report.files p result.files).run.run { w with line := line } = (.ok (q,later.files),after) ∧
      v.deeds = after.deeds ∧ v.tree = after.tree := by
  rcases run_layOut_whole ran with none_ |
    ⟨contents,index,line,report,files,after,filled,read,told,renamed,moved,rfl,rfl⟩
  · exact .inl none_
  · exact .inr ⟨contents,index,line,report,after,filled,read,told,renamed,moved,rfl,rfl⟩

theorem outcomes_layOut {p q : Progress} {result later : RunResult} {w v : World}
    (ran : (c.layOut p result).run.run w = (.ok (q,later),v)) :
    later.files.map Converted.outcome = result.files.map Converted.outcome := by
  rcases run_layOut ran with ⟨_,_,rfl,_⟩ | ⟨_,_,_,_,_,_,_,_,_,moved,_⟩
  · rfl
  · exact map_moveAll (fun _ _ _ => rfl) moved

end Converter
end Recast
