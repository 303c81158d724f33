import Recast.Proofs.Run.Frame
import Recast.Proofs.Run.Layout

/-! What the checkpoints of a run say of the files. A checkpoint is intact when each completed source
has a place of its own with the text that was written for it. -/
namespace Recast
open Steps

namespace Deed

/-- The text that was last written for a source. -/
def textOf (source : Text) : List Deed → Option Text
  | [] => none
  | .wrote s content :: older => if s = source then some content else textOf source older
  | .saved _ _ :: older => textOf source older

/-- Of texts that are written for different sources each is the last one. -/
theorem textOf_append {texts : List (Text × Text)} (distinct : (texts.map Prod.fst).Nodup)
    {a content : Text} (member : (a,content) ∈ texts) (older : List Deed) :
    textOf a (texts.map (fun f => .wrote f.1 f.2) ++ older) = some content := by
  induction texts with
  | nil => cases member
  | cons f rest ih =>
    obtain ⟨fresh,distinct⟩ := List.nodup_cons.1 distinct
    rw [List.map_cons,List.cons_append,textOf]
    rcases List.mem_cons.1 member with rfl | tail
    · exact if_pos rfl
    · rw [if_neg fun same : f.1 = a => fresh (List.mem_map.2 ⟨_,tail,same.symm⟩)]
      exact ih distinct tail

/-- The progress that was saved last. -/
def latest : List Deed → Option Progress
  | [] => none
  | .saved p _ :: _ => some p
  | .wrote _ _ :: older => latest older

end Deed

namespace Progress

/-- Where the output of a source is, if it has one. -/
def place? (p : Progress) (source : Text) : Option Key :=
  ((p.outputs.get? source).filter fun o => !o.isEmpty).map (Converter.outputKey p)

/-- Different completed sources have their outputs at different places, and at each place is the
text that was last written for its source. -/
structure Intact (p : Progress) (deeds : List Deed) (t : Tree) : Prop where
  apart : ∀ a b, p.isCompleted a → p.isCompleted b → p.place? a = p.place? b → a = b
  own : ∀ a, p.isCompleted a → ∃ k text, p.place? a = some k ∧ Deed.textOf a deeds = some text ∧
    t.file? k = some (.text text)

/-- The same files have the same outcomes and the same outputs. -/
structure SameFiles (p q : Progress) : Prop where
  completed : ∀ a, q.isCompleted a = p.isCompleted a
  outputs : ∀ a, q.outputs.get? a = p.outputs.get? a
  output : q.output = p.output

theorem SameFiles.place? {p q : Progress} (same : SameFiles p q) (a : Text) :
    q.place? a = p.place? a := by
  unfold Progress.place? Converter.outputKey
  rw [same.outputs,same.output]

theorem SameFiles.intact {p q : Progress} (same : SameFiles p q) {deeds : List Deed} {t : Tree}
    (intact : p.Intact deeds t) : q.Intact deeds t := by
  refine ⟨fun a b left right equal => ?_,fun a held => ?_⟩
  · rw [same.completed] at left right
    rw [same.place?,same.place?] at equal
    exact intact.apart a b left right equal
  · rw [same.completed] at held
    rw [same.place?]
    exact intact.own a held

/-- A plain output is a place. -/
theorem place?_of_plain {p : Progress} {a o : Text} (held : p.outputs.get? a = some o)
    (plain : Path.Plain o) : p.place? a = some (Converter.outputKey p o) := by
  unfold place?
  rw [held]
  simp [Option.filter,plain.ne_nil]

end Progress

/-- Every checkpoint was intact when it was saved. -/
def Sound : List Deed → Prop
  | [] => True
  | .saved p t :: older => p.Intact older t ∧ Sound older
  | .wrote _ _ :: older => Sound older

theorem Sound.older {earlier later : List Deed} (sound : Sound later) (before : earlier <:+ later) :
    Sound earlier := by
  obtain ⟨newer,rfl⟩ := before
  induction newer with
  | nil => exact sound
  | cons d newer ih =>
    cases d with
    | wrote s content => exact ih sound
    | saved p t => exact ih sound.2

/-- Texts that are written after the last checkpoint change nothing about those before. -/
theorem sound_wrote (texts : List (Text × Text)) (deeds : List Deed) :
    Sound (texts.map (fun f => .wrote f.1 f.2) ++ deeds) ↔ Sound deeds := by
  induction texts with
  | nil => rfl
  | cons f rest ih => exact ih

namespace Store

/-- The outputs of the completed files are plain and outside of the store, which keeps the progress
under a plain name. -/
structure Stands (s : Store) (p : Progress) : Prop where
  plain : ∀ a, p.isCompleted a → ∃ o, p.outputs.get? a = some o ∧ Path.Plain o ∧
    ¬ s.Inside (Converter.outputKey p o)
  named : Path.Plain (fileName p)
  distinct : p.outcomes.names.Nodup
  single : p.outputs.names.Nodup

theorem fileName_congr {p q : Progress} (same : q.id = p.id) : fileName q = fileName p := by
  unfold fileName
  rw [same]

/-- A progress stays intact while no text is written and no file outside of the store changes. -/
theorem Stands.intact {s : Store} {p : Progress} {deeds later : List Deed} {t u : Tree}
    (stands : s.Stands p) (texts : ∀ a, Deed.textOf a later = Deed.textOf a deeds)
    (files : ∀ k, ¬ s.Inside k → u.file? k = t.file? k) (intact : p.Intact deeds t) :
    p.Intact later u := by
  refine ⟨intact.apart,fun a held => ?_⟩
  obtain ⟨o,output,plain,outside⟩ := stands.plain a held
  have place := Progress.place?_of_plain output plain
  obtain ⟨k,text,there,own,file⟩ := intact.own a held
  rw [place] at there
  cases there
  exact ⟨_,text,place,(texts a).trans own,(files _ outside).trans file⟩

theorem Stands.sameFiles {s : Store} {p q : Progress} (stands : s.Stands p) (alike : p.Alike q) :
    p.SameFiles q :=
  ⟨alike.isCompleted stands.distinct,alike.get?_outputs stands.single,alike.output⟩

theorem Stands.alike {s : Store} {p q : Progress} (stands : s.Stands p) (alike : p.Alike q) :
    s.Stands q := by
  have same := stands.sameFiles alike
  refine ⟨fun a held => ?_,?_,?_,?_⟩
  · rw [same.completed] at held
    obtain ⟨o,output,plain,outside⟩ := stands.plain a held
    refine ⟨o,by rw [same.outputs,output],plain,?_⟩
    unfold Converter.outputKey
    rwa [same.output]
  · unfold fileName
    rw [alike.id]
    exact stands.named
  · exact (alike.outcomes.map Prod.fst).nodup_iff.2 stands.distinct
  · exact (alike.outputs.map Prod.fst).nodup_iff.2 stands.single

/-- The place is that of a checkpoint with the given file name, or of the latest one. -/
def Checkpoint (s : Store) (name : Text) (k : Key) : Prop := k = s.key name ∨ k = s.key latest

instance (s : Store) (name : Text) (k : Key) : Decidable (s.Checkpoint name k) :=
  inferInstanceAs (Decidable (_ ∨ _))

theorem inside_of_checkpoint {s : Store} {name : Text} (plain : Path.Plain name) {k : Key}
    (checkpoint : s.Checkpoint name k) : s.Inside k := by
  have inside (name : Text) (plain : Path.Plain name) : s.Inside (s.key name) := by
    have there := inside_child plain s []
    rwa [List.append_nil] at there
  rcases checkpoint with rfl | rfl
  · exact inside name plain
  · exact inside latest (by decide +kernel)

/-- A checkpoint holds the progress, and saving it changes no other file. -/
theorem save_eq_ok {s : Store} {t later : Tree} {p q : Progress} {now : Float}
    (saved : s.save t p now = .ok (q,later)) :
    q = { p with updated := now } ∧
      (∀ k, ¬ s.Checkpoint (fileName p) k → later.file? k = t.file? k) ∧
      ∀ k, t.isFolder k = true → later.isFolder k = true := by
  unfold save at saved
  obtain ⟨first,made,saved⟩ := ok_of_bind saved
  split at saved
  · cases saved
  · obtain ⟨second,written,saved⟩ := ok_of_bind saved
    obtain ⟨third,again,saved⟩ := ok_of_bind saved
    cases saved
    refine ⟨rfl,fun k other => ?_,fun k there => ?_⟩
    · have own : k ≠ s.key (fileName { p with updated := now }) := fun same => other (.inl same)
      have last : k ≠ s.key latest := fun same => other (.inr same)
      rw [Tree.file?_write (ok_of_mapError again),if_neg last,
        Tree.file?_write (ok_of_mapError written),if_neg own,
        Tree.file?_makeFolders (ok_of_mapError made)]
    · rw [(Tree.isFolder_write (ok_of_mapError again)).2,
        (Tree.isFolder_write (ok_of_mapError written)).2]
      exact (Tree.isFolder_makeFolders (ok_of_mapError made)).2 k there

end Store

namespace Converter
variable {c : Converter}

theorem run_withProgress {f : Progress → Run Unit} {w : World} {p : Progress}
    (held : w.progress = some p) : (withProgress f).run.run w = (f p).run.run w := by
  unfold withProgress
  rw [run_bind,run_get]
  dsimp only
  rw [held]

/-- A checkpoint that is written holds the progress of the run, and no other file changes. -/
theorem run_saveProgress {w v : World} {p : Progress} (held : w.progress = some p) {u : Unit}
    (ran : c.saveProgress.run.run w = (.ok u,v)) :
    v.progress = some { p with updated := c.now } ∧ v.deeds = .saved p w.tree :: w.deeds ∧
      (∀ k, ¬ c.store.Checkpoint (Store.fileName p) k → v.tree.file? k = w.tree.file? k) ∧
      ∀ k, w.tree.isFolder k = true → v.tree.isFolder k = true := by
  unfold saveProgress at ran
  rw [run_withProgress held,run_bind,run_get] at ran
  dsimp only at ran
  rw [run_bind,Run.run_note] at ran
  dsimp only at ran
  rw [run_bind,run_get] at ran
  dsimp only at ran
  cases saved : c.store.save w.tree p c.now with
  | error e =>
    rw [saved] at ran
    cases ran
  | ok found =>
    obtain ⟨q,t⟩ := found
    rw [saved] at ran
    obtain ⟨rfl,files,folders⟩ := Store.save_eq_ok saved
    cases ran
    exact ⟨rfl,rfl,files,folders⟩

/-- The summary once a file is added to it. -/
def summaryWith (c : Converter) (f : Converted) (p : Progress) (line : Line) : Text :=
  if c.settings.run.summaries then
    match ((c.session.summarize f.output f.content).run.run line).1 with
    | .ok told => (p.appendSummary (f.output ++ ": " ++ told) c.settings.run.summaryLength).summary
    | .error _ => p.summary
  else p.summary

/-- A summary changes nothing but the summary. -/
theorem run_summarize {f : Converted} {w v : World} {p : Progress} (held : w.progress = some p)
    {u : Unit} (ran : (c.summarize f).run.run w = (.ok u,v)) :
    v.progress = some { p with summary := c.summaryWith f p w.line } ∧ v.deeds = w.deeds ∧
      v.tree = w.tree := by
  unfold summaryWith
  unfold summarize at ran
  split at ran
  · rename_i wanted
    rw [if_pos wanted]
    rw [run_bind,Run.run_observe,Run.run_talk] at ran
    dsimp only at ran
    generalize (c.session.summarize f.output f.content).run.run w.line = told at ran ⊢
    obtain ⟨r,line⟩ := told
    cases r with
    | ok summary =>
      change (withProgress _).run.run { w with line := line } = _ at ran
      rw [run_withProgress (w := { w with line := line }) held] at ran
      cases ran
      refine ⟨?_,rfl,rfl⟩
      dsimp only
      unfold Progress.appendSummary
      dsimp only
      split
      · rfl
      · rfl
    | error e =>
      cases e with
      | service why =>
        cases ran
        exact ⟨held,rfl,rfl⟩
      | incomplete attempts code => cases ran
      | notText => cases ran
  · rename_i unwanted
    rw [if_neg unwanted]
    cases ran
    exact ⟨held,rfl,rfl⟩

/-- What is written for a file that is recorded. -/
def written (f : Converted) : List Deed :=
  if f.outcome.completed then [.wrote f.source f.content] else []

/-- The progress once a file is recorded. -/
def recorded (c : Converter) (f : Converted) (p : Progress) (line : Line) : Progress :=
  ({ p with summary := if f.outcome.completed then c.summaryWith f p line else p.summary } : Progress).record
    f.source (some f.output) f.outcome c.now

section
variable (c : Converter) (f : Converted) (p : Progress) (line : Line)

theorem isCompleted_recorded (a : Text) : (c.recorded f p line).isCompleted a =
    if a = f.source then f.outcome.completed else p.isCompleted a :=
  Progress.isCompleted_record { p with summary := _ } _ _ _ _ a

theorem get?_recorded (a : Text) : (c.recorded f p line).outputs.get? a =
    if f.outcome.completed ∧ a = f.source then some f.output else p.outputs.get? a := by
  unfold recorded
  rw [Progress.outputs_record]
  by_cases completed : f.outcome.completed = true
  · rw [if_pos completed,Table.get?_set]
    simp [completed]
  · rw [if_neg completed]
    simp [completed]

theorem output_recorded : (c.recorded f p line).output = p.output :=
  (Progress.output_record { p with summary := _ } _ _ _ _).1

theorem id_recorded : (c.recorded f p line).id = p.id :=
  (Progress.output_record { p with summary := _ } _ _ _ _).2

theorem total_recorded : (c.recorded f p line).total = p.total :=
  Progress.total_record { p with summary := _ } _ _ _ _

variable {p} in
theorem nodup_recorded (outcomes : p.outcomes.names.Nodup) (outputs : p.outputs.names.Nodup) :
    (c.recorded f p line).outcomes.names.Nodup ∧ (c.recorded f p line).outputs.names.Nodup :=
  Progress.nodup_record _ _ _ _ outcomes outputs

end

/-- A file is entered in the progress, and a checkpoint says so. -/
theorem run_enter {f : Converted} {done total : Nat} {w v : World} {p : Progress}
    (held : w.progress = some p) {u : Unit} (ran : (c.enter f done total).run.run w = (.ok u,v)) :
    let q := p.record f.source (some f.output) f.outcome c.now
    v.progress = some q ∧ v.deeds = .saved q w.tree :: w.deeds ∧
      (∀ k, ¬ c.store.Checkpoint (Store.fileName p) k → v.tree.file? k = w.tree.file? k) ∧
      ∀ k, w.tree.isFolder k = true → v.tree.isFolder k = true := by
  intro q
  obtain ⟨_,entered,first,ran⟩ := ok_of_run_bind ran
  rw [run_withProgress held] at first
  cases first
  obtain ⟨_,saved,second,ran⟩ := ok_of_run_bind ran
  cases ran
  have same : Store.fileName q = Store.fileName p :=
    Store.fileName_congr (Progress.output_record p _ _ _ _).2
  obtain ⟨now,deeds,files,folders⟩ := run_saveProgress rfl second
  rw [same] at files
  exact ⟨now,deeds,files,folders⟩

/-- A file is written if it has an output, and then a checkpoint is saved in which it is recorded. -/
theorem run_record {f : Converted} {done total : Nat} {w v : World} {p : Progress}
    (held : w.progress = some p) {u : Unit}
    (ran : (c.record f done total).run.run w = (.ok u,v)) :
    v.progress = some (c.recorded f p w.line) ∧ ∃ t,
      v.deeds = .saved (c.recorded f p w.line) t :: (written f ++ w.deeds) ∧
      (∀ k, t.file? k = if f.outcome.completed ∧ k = outputKey p f.output then some (.text f.content)
        else w.tree.file? k) ∧
      (∀ k, ¬ c.store.Checkpoint (Store.fileName p) k → v.tree.file? k = t.file? k) ∧
      (∀ k, w.tree.isFolder k = true → v.tree.isFolder k = true) ∧
      (f.outcome.completed = true → v.tree.isFolder (outputKey p f.output).dropLast = true) := by
  unfold recorded written
  by_cases completed : f.outcome.completed = true
  · rw [c.record_completed completed] at ran
    simp only [if_pos completed]
    obtain ⟨_,between,first,ran⟩ := ok_of_run_bind ran
    rw [run_withProgress held,Run.run_files] at first
    cases placed : w.tree.place (outputKey p f.output) (.text f.content) with
    | error fault =>
      rw [placed] at first
      cases first
    | ok t =>
      rw [placed] at first
      cases first
      obtain ⟨_,noted,second,ran⟩ := ok_of_run_bind ran
      cases second
      obtain ⟨_,told,third,ran⟩ := ok_of_run_bind ran
      obtain ⟨now,deeds,tree⟩ := run_summarize (w := { w with tree := t, deeds := _ :: w.deeds }) held third
      obtain ⟨later,saved,files,folders⟩ := run_enter now ran
      obtain ⟨here,kept⟩ := Tree.isFolder_place placed
      rw [tree] at folders
      refine ⟨later,t,?_,fun k => ?_,fun k other => ?_,fun k there => folders k (kept k there),
        fun _ => folders _ here⟩
      · rw [saved,deeds,tree]
        rfl
      · rw [Tree.file?_place placed]
        simp [completed]
      · rw [files k other,tree]
  · rw [c.record_failed completed] at ran
    simp only [if_neg completed]
    obtain ⟨later,saved,files,folders⟩ := run_enter held ran
    exact ⟨later,w.tree,saved,fun k => by simp [completed],files,folders,fun done => absurd done completed⟩

/-- Of a file with an output, beside the checkpoints, only its place has a new text. -/
theorem run_record_completed {f : Converted} (completed : f.outcome.completed = true) {done total : Nat}
    {w v : World} {p : Progress} (held : w.progress = some p) {u : Unit}
    (ran : (c.record f done total).run.run w = (.ok u,v)) :
    v.progress = some (c.recorded f p w.line) ∧
      (∀ k, ¬ c.store.Checkpoint (Store.fileName p) k → v.tree.file? k =
        if k = outputKey p f.output then some (.text f.content) else w.tree.file? k) ∧
      (∀ k, w.tree.isFolder k = true → v.tree.isFolder k = true) ∧
      v.tree.isFolder (outputKey p f.output).dropLast = true := by
  obtain ⟨later,t,_,placed,files,folders,rooted⟩ := run_record held ran
  refine ⟨later,fun k other => ?_,folders,rooted completed⟩
  rw [files k other,placed]
  simp [completed]

/-- The last step of a run moves files; what was intact stays so. -/
structure LaidOut (c : Converter) (p q : Progress) (w v : World) : Prop where
  outcomes : q.outcomes = p.outcomes
  output : q.output = p.output
  id : q.id = p.id
  deeds : ∃ texts : List (Text × Text), v.deeds = texts.map (fun f => .wrote f.1 f.2) ++ w.deeds
  stands : c.store.Stands q
  intact : p.Intact w.deeds w.tree → q.Intact v.deeds v.tree

theorem LaidOut.refl {p : Progress} (stands : c.store.Stands p) (w : World) : LaidOut c p p w w :=
  ⟨rfl,rfl,rfl,⟨[],rfl⟩,stands,fun intact => intact⟩

section
variable {Name : Text → Prop} (spreads : c.target.Spreads c.settings.language.package Name)
include spreads

/-- The entries of an index let the files of a progress move. -/
theorem movable {index : NameIndex} {sources : List Text} (spaced : c.namer.Spaced Name sources index)
    {p : Progress} (stands : c.store.Stands p) {files : List (Text × Text)}
    (distinct : (files.map Prod.fst).Nodup) (indexed : ∀ a ∈ files.map Prod.fst, a ∈ sources)
    (completed : ∀ a ∈ files.map Prod.fst, p.isCompleted a = true) :
    Movable index ((files.filterMap fun f => index.bySource? f.1).map Entry.output) files p where
  distinct := distinct
  entry := fun a member => by
    obtain ⟨e,found,inside,same⟩ := spaced.entry (indexed a member)
    obtain ⟨name,fine,output⟩ := spaced.placed e inside
    refine ⟨e,found,same,output ▸ spreads.plain _ name fine,List.mem_map.2 ⟨e,?_,rfl⟩⟩
    obtain ⟨f,held,rfl⟩ := List.mem_map.1 member
    exact List.mem_filterMap.2 ⟨f,held,found⟩
  apart := fun a b d e left right same => by
    obtain ⟨first,rfl⟩ := NameIndex.of_bySource? left
    obtain ⟨second,rfl⟩ := NameIndex.of_bySource? right
    rw [spaced.output_inj first second same]
  former := fun a member old held => by
    obtain ⟨o,output,plain,_⟩ := stands.plain a (completed a member)
    rw [held] at output
    cases output
    exact plain

/-- The files of a progress were renamed, and they were moved to the places of their entries. -/
structure Rehoused (c : Converter) (Name : Text → Prop) (contents : List (Text × Text)) (index : NameIndex)
    (files : List (Text × Text)) (p q : Progress) (w v : World) : Prop where
  paths : (files.map Prod.fst).Perm (contents.map Prod.fst)
  distinct : (files.map Prod.fst).Nodup
  entry : ∀ a ∈ files.map Prod.fst, ∃ e name, index.bySource? a = some e ∧ Name name ∧
    e.output = c.namer.outputOf e.source name
  apart : ∀ a b d e, index.bySource? a = some d → index.bySource? b = some e →
    d.output = e.output → a = b
  moved : Moved index ((files.filterMap fun f => index.bySource? f.1).map Entry.output) files p q w v

theorem rehoused {p q : Progress} (stands : c.store.Stands p) {contents : List (Text × Text)} {t : Tree}
    (read : completedContents p t p.completedPaths = .ok contents) {index : NameIndex} {l line : Line}
    (told : (c.namer.index contents).run.run l = (.ok index,line)) {bound : Nat} {report : RenamingReport}
    (renamed : Renaming.apply c.target index bound contents = some report) {files files_ : List Converted}
    {w v : World} (ran : (moveAll index ((report.files.filterMap fun f =>
      index.bySource? f.1).map Entry.output) report.files p files).run.run w = (.ok (q,files_),v)) :
    c.Rehoused Name contents index report.files p q w v := by
  obtain ⟨sources,same,spaced⟩ := (Namer.obeys_index spreads contents).ok told
  have paths := Renaming.map_fst_apply renamed
  have some_ := sublist_completedContents read
  have distinct : (report.files.map Prod.fst).Nodup :=
    paths.nodup_iff.2 (some_.nodup (Progress.nodup_completedPaths stands.distinct))
  have indexed (a : Text) (member : a ∈ report.files.map Prod.fst) : a ∈ sources :=
    same.mem_iff.2 (paths.mem_iff.1 member)
  have movable := movable spreads spaced stands distinct indexed fun a member =>
    Progress.mem_completedPaths.1 (some_.subset (paths.mem_iff.1 member))
  refine ⟨paths,distinct,fun a member => ?_,movable.apart,moved_moveAll movable ran⟩
  obtain ⟨e,found,inside,_⟩ := spaced.entry (indexed a member)
  obtain ⟨name,fine,output⟩ := spaced.placed e inside
  exact ⟨e,name,found,fine,output⟩

namespace Rehoused
variable {contents files : List (Text × Text)} {index : NameIndex} {p q : Progress} {w v : World}
  (rehoused : c.Rehoused Name contents index files p q w v)
include rehoused

/-- A file that was moved has the place of its entry. -/
theorem final {a : Text} (member : a ∈ files.map Prod.fst) : ∃ e name, index.bySource? a = some e ∧
    q.outputs.get? a = some e.output ∧ Path.Plain e.output ∧ Name name ∧
    e.output = c.namer.outputOf e.source name := by
  obtain ⟨e,name,found,fine,output⟩ := rehoused.entry a member
  exact ⟨e,name,found,rehoused.moved.outputs a member e found,output ▸ spreads.plain _ name fine,fine,output⟩

theorem stands (stands : c.store.Stands p)
    (clear : ∀ source name, Name name → ¬ c.store.Inside (outputKey p (c.namer.outputOf source name))) :
    c.store.Stands q := by
  have done := rehoused.moved
  have key := outputKey_congr done.output
  refine ⟨fun a held => ?_,?_,?_,done.single stands.single⟩
  · by_cases member : a ∈ files.map Prod.fst
    · obtain ⟨e,name,_,held,plain,fine,output⟩ := rehoused.final spreads member
      refine ⟨_,held,plain,?_⟩
      rw [key,output]
      exact clear _ name fine
    · rw [Progress.isCompleted_congr done.outcomes] at held
      obtain ⟨o,output,plain,outside⟩ := stands.plain a held
      exact ⟨o,by rw [done.others a member,output],plain,by rwa [key]⟩
  · exact Store.fileName_congr done.id ▸ stands.named
  · rw [done.outcomes]
    exact stands.distinct

omit spreads in
/-- Where every completed file was there, all of them were moved. -/
theorem mem_of_isCompleted (stands : c.store.Stands p) (intact : p.Intact w.deeds w.tree)
    (read : completedContents p w.tree p.completedPaths = .ok contents) {a : Text}
    (held : q.isCompleted a = true) : a ∈ files.map Prod.fst := by
  have all : contents.map Prod.fst = p.completedPaths := by
    refine map_fst_completedContents read fun b member => ?_
    have held := Progress.mem_completedPaths.1 member
    obtain ⟨o,output,plain,_⟩ := stands.plain b held
    obtain ⟨k,text,place,_,file⟩ := intact.own b held
    rw [Progress.place?_of_plain output plain] at place
    cases place
    exact ⟨o,output,plain.ne_nil,by simp [Tree.isFile,file]⟩
  rw [rehoused.paths.mem_iff,all,Progress.mem_completedPaths,
    ← Progress.isCompleted_congr rehoused.moved.outcomes]
  exact held

theorem intact (stands : c.store.Stands p) (intact : p.Intact w.deeds w.tree)
    (read : completedContents p w.tree p.completedPaths = .ok contents) : q.Intact v.deeds v.tree := by
  have done := rehoused.moved
  have place (a : Text) (held : q.isCompleted a = true) : a ∈ files.map Prod.fst ∧
      ∃ e, index.bySource? a = some e ∧ q.place? a = some (outputKey q e.output) ∧ Path.Plain e.output := by
    have member := rehoused.mem_of_isCompleted stands intact read held
    obtain ⟨e,_,found,output,plain,_⟩ := rehoused.final spreads member
    exact ⟨member,e,found,Progress.place?_of_plain output plain,plain⟩
  refine ⟨fun a b left right equal => ?_,fun a held => ?_⟩
  · obtain ⟨_,d,found,here,plain⟩ := place a left
    obtain ⟨_,e,found_,there,other⟩ := place b right
    rw [here,there] at equal
    exact rehoused.apart a b d e found found_ (outputKey_inj plain other (Option.some.inj equal))
  · obtain ⟨member,e,found,here,plain⟩ := place a held
    obtain ⟨f,inside,rfl⟩ := List.mem_map.1 member
    refine ⟨_,f.2,here,?_,?_⟩
    · have reversed : (files.reverse.map Prod.fst).Nodup := by
        rw [List.map_reverse,List.nodup_reverse]
        exact rehoused.distinct
      rw [done.deeds,← List.map_reverse]
      exact Deed.textOf_append reversed (List.mem_reverse.2 inside) _
    · rw [outputKey_congr done.output]
      exact done.files f inside e found

end Rehoused

theorem laidOut {p q : Progress} (stands : c.store.Stands p)
    (clear : ∀ source name, Name name → ¬ c.store.Inside (outputKey p (c.namer.outputOf source name)))
    {result later : RunResult} {w v : World}
    (ran : (c.layOut p result).run.run w = (.ok (q,later),v)) : LaidOut c p q w v := by
  rcases run_layOut ran with ⟨_,rfl,_,rfl⟩ |
    ⟨contents,index,line,report,after,_,read,told,renamed,moved,deeds,tree⟩
  · exact .refl stands _
  · have rehoused := rehoused spreads stands read told renamed moved
    have done := rehoused.moved
    refine ⟨done.outcomes,done.output,done.id,⟨report.files.reverse,?_⟩,
      rehoused.stands spreads stands clear,fun intact => ?_⟩
    · rw [deeds,done.deeds,List.map_reverse]
    · rw [deeds,tree]
      exact rehoused.intact spreads stands intact read

end

end Converter
end Recast
