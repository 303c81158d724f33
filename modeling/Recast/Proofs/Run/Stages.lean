import Recast.Proofs.Path
import Recast.Proofs.Run.Steps
import Recast.Run.Project

/-! The stages of a run: it begins, works on one group of files after the other, and concludes. -/
namespace Recast.Converter
open Steps
variable (c : Converter)

/-- What is done for one group. -/
def groupWork (files : List Source) : Run (List Converted) := do c.poll; c.convertGroup files

/-- The files of a group are sent together. -/
def sentTogether (files : List Source) : Run (Option (List Text × History)) := do
  c.poll
  c.emit (groupEvent files)
  c.convertMerged files

/-- What follows once the files of a group were sent together. -/
def tookApart (files : List Source) : Option (List Text × History) → Run (List Converted)
  | none => c.convertEach files
  | some (parts,history) =>
    c.finishEach history ((files.map fun f => (f.1,contentOf files f.1)).zip parts)

theorem groupWork_eq {files : List Source} (many : files.length ≠ 1) :
    c.groupWork files = c.sentTogether files >>= c.tookApart files := by
  have shape : c.convertGroup files = (do
      c.emit (groupEvent files)
      c.convertMerged files >>= c.tookApart files) := by
    unfold convertGroup
    split
    · exact absurd rfl many
    · rfl
  unfold groupWork sentTogether
  rw [shape]
  simp only [bind_assoc]

/-- A cancellation ends the work on groups and leaves what is done. -/
def cancelGroups (total done : Nat) (result : RunResult) : Run (Nat × RunResult) := do
  c.emit { kind := .cancelled, message := "Cancelled", current := done, total := total }
  return (done,{ result with cancelled := true })

/-- A group is converted and recorded before the next one is begun. -/
theorem run_convertGroups (total : Nat) (first : List Source) (rest : List (List Source))
    (done : Nat) (result : RunResult) (w : World) :
    (c.convertGroups total (first :: rest) done result).run.run w =
      match (c.groupWork first).run.run w with
      | (.ok files,between) =>
        (c.recordEach total files done result >>= fun r =>
          c.convertGroups total rest r.1 r.2).run.run between
      | (.error .cancelled,between) => (c.cancelGroups total done result).run.run between
      | (.error e,between) => (.error e,between) := by
  conv => lhs; unfold convertGroups
  rw [run_bind,Run.run_observe]
  unfold groupWork
  cases (do c.poll; c.convertGroup first : Run (List Converted)).run.run w with
  | mk r between =>
    cases r with
    | ok files => rfl
    | error e => cases e <;> rfl

variable {c} in
/-- Work on groups that comes to its end was cancelled in the first group, or it went on behind it. -/
theorem convertGroups_cons {total done : Nat} {first : List Source} {rest : List (List Source)}
    {result : RunResult} {r : Nat × RunResult} {w v : World}
    (ran : (c.convertGroups total (first :: rest) done result).run.run w = (.ok r,v)) :
    (∃ between, (c.groupWork first).run.run w = (.error .cancelled,between) ∧
      (c.cancelGroups total done result).run.run between = (.ok r,v)) ∨
    ∃ files between next after, (c.groupWork first).run.run w = (.ok files,between) ∧
      (c.recordEach total files done result).run.run between = (.ok next,after) ∧
      (c.convertGroups total rest next.1 next.2).run.run after = (.ok r,v) := by
  rw [run_convertGroups] at ran
  cases worked : (c.groupWork first).run.run w with
  | mk answer between =>
    rw [worked] at ran
    cases answer with
    | error e =>
      cases e with
      | cancelled => exact .inl ⟨between,rfl,ran⟩
      | _ => cases ran
    | ok files =>
      obtain ⟨next,after,recorded,ran⟩ := ok_of_run_bind ran
      exact .inr ⟨files,between,next,after,rfl,recorded,ran⟩

/-- The last steps of a record: a file is entered in the progress, which is saved. -/
def enter (f : Converted) (done total : Nat) : Run Unit := do
  withProgress fun p => setProgress (p.record f.source (some f.output) f.outcome c.now)
  c.saveProgress
  c.emit (fileEvent f done total)

theorem record_completed {f : Converted} (completed : f.outcome.completed = true) (done total : Nat) :
    c.record f done total = (do
      withProgress fun p => Run.files fun t => t.place (outputKey p f.output) (.text f.content)
      Run.note (.wrote f.source f.content)
      c.summarize f
      c.enter f done total) := by
  unfold record
  rw [if_pos completed]
  rfl

theorem record_failed {f : Converted} (failed : ¬ f.outcome.completed = true) (done total : Nat) :
    c.record f done total = c.enter f done total := by
  unfold record
  rw [if_neg failed]
  rfl

/-- What a run begins with: the progress that it goes on from, and the report that it begins. -/
def begin (start : Progress) (files : List Source) : Run Unit := do
  setProgress { start with total := max start.total files.length }
  let pending := files.filter fun f => !start.isCompleted f.1
  c.emit { kind := .runStarted, message := "Translating " ++ Numeral.ofNat pending.length ++ " file(s)",
           current := (files.length - pending.length : Nat), total := files.length }

theorem run_begin (start : Progress) (files : List Source) (w : World) :
    ∃ v, (c.begin start files).run.run w = (.ok (),v) ∧
      v.progress = some { start with total := max start.total files.length } ∧ v.tree = w.tree :=
  ⟨_,rfl,rfl,rfl⟩

/-- The files that a run still has to convert, in groups. -/
def pendingGroups (start : Progress) (files : List Source) : List (List Source) :=
  Group.plan c.settings.language c.settings.run (files.filter fun f => !start.isCompleted f.1)

/-- What a run ends with, once the work on its files has ended. -/
def conclude (total : Nat) (r : Nat × RunResult) : Run RunResult := do
  let result ← if r.2.cancelled then pure r.2 else do
    match (← get).progress with
    | none => pure r.2
    | some p =>
      let (p,result) ← c.layOut p r.2
      setProgress p
      pure result
  c.saveProgress
  c.emit { kind := .runFinished, message := summaryLine result, current := r.1, total := total }
  return result

theorem runFrom_eq (start : Progress) (files : List Source) :
    c.runFrom start files = (do
      c.begin start files
      let r ← c.convertGroups files.length (c.pendingGroups start files)
        (files.length - (files.filter fun f => !start.isCompleted f.1).length) {}
      c.conclude files.length r) := by
  rfl

/-- The last steps of a run. -/
def closing (total done : Nat) (result : RunResult) : Run RunResult := do
  c.saveProgress
  c.emit { kind := .runFinished, message := summaryLine result, current := done, total := total }
  return result

section
variable {c} {total : Nat} {r : Nat × RunResult} {p : Progress} {w v : World} {result : RunResult}

theorem conclude_cancelled (cancelled : r.2.cancelled = true) :
    c.conclude total r = c.closing total r.1 r.2 := by
  unfold conclude
  rw [cancelled,if_pos rfl]
  rfl

theorem conclude_whole (held : w.progress = some p) (whole : r.2.cancelled = false) :
    (c.conclude total r).run.run w =
      (c.layOut p r.2 >>= fun l => setProgress l.1 >>= fun _ => c.closing total r.1 l.2).run.run w := by
  unfold conclude
  rw [whole,if_neg Bool.false_ne_true,run_bind,run_get]
  dsimp only
  rw [held]
  simp only [pure_bind]
  rfl

theorem cancelled_conclude (ran : (c.conclude total r).run.run w = (.ok result,v))
    (cancelled : r.2.cancelled = true) : result.cancelled = true := by
  rw [conclude_cancelled cancelled] at ran
  obtain ⟨_,_,_,ran⟩ := ok_of_run_bind ran
  cases ran
  exact cancelled

/-- A run that was not cancelled lays its files out and saves the progress once more. -/
theorem run_conclude (held : w.progress = some p) (whole : r.2.cancelled = false)
    (ran : (c.conclude total r).run.run w = (.ok result,v)) : ∃ q laid saved u,
      (c.layOut p r.2).run.run w = (.ok (q,result),laid) ∧
      c.saveProgress.run.run { laid with progress := some q } = (.ok u,saved) ∧
      v.tree = saved.tree ∧ v.progress = saved.progress := by
  rw [conclude_whole held whole] at ran
  obtain ⟨⟨q,later⟩,laid,layOut_,ran⟩ := ok_of_run_bind ran
  obtain ⟨_,_,set_,ran⟩ := ok_of_run_bind ran
  cases set_
  obtain ⟨u,saved,saved_,ran⟩ := ok_of_run_bind ran
  cases ran
  exact ⟨q,laid,saved,u,layOut_,saved_,rfl,rfl⟩

end

theorem flatten_plan (settings : LanguageSettings) (run : RunSettings) (files : List Source) :
    (Group.plan settings run files).flatten = files := by
  unfold Group.plan
  split
  · exact Group.flatten_gather _ _ [] 0 files
  · induction files with
    | nil => rfl
    | cons f rest ih => rw [List.map_cons,List.flatten_cons,ih]; rfl

/-- The files of a project under their paths in normal form. -/
def normalized (files : List Source) : List Source :=
  files.map fun f => ((Path.ofText f.1).toText,f.2)

theorem normal_of_mem {files : List Source} {f : Source} (member : f ∈ normalized files) :
    (Path.ofText f.1).toText = f.1 := by
  obtain ⟨g,_,rfl⟩ := List.mem_map.1 member
  exact congrArg Path.toText (Path.ofText_toText g.1)

/-- The progress that a run goes on from. -/
def startOf (id : Text) (start : Option Progress) (files : List Source) : Progress :=
  start.getD (c.newProgress id (normalized files).length)

theorem runProject_eq (id : Text) (start : Option Progress) (files : List Source) :
    c.runProject id start files =
      (do c.probe; c.runFrom (c.startOf id start files) (normalized files)) := rfl

/-- The files that a run still has to convert. -/
def pendingSources (start : Progress) (files : List Source) : List Text :=
  (files.filter fun f => !start.isCompleted f.1).map Prod.fst

theorem flatten_pendingGroups (start : Progress) (files : List Source) :
    (c.pendingGroups start files).flatten = files.filter fun f => !start.isCompleted f.1 :=
  flatten_plan _ _ _

variable {c} in
theorem mem_of_mem_pendingGroups {start : Progress} {files : List Source} {f : Source}
    (member : f ∈ (c.pendingGroups start files).flatten) : f ∈ files :=
  (List.mem_filter.1 (c.flatten_pendingGroups start files ▸ member)).1

/-- What is pending comes with no file that has been completed. -/
theorem isCompleted_of_pending {start : Progress} {files : List Source} {a : Text}
    (pending : a ∈ pendingSources start files) : start.isCompleted a = false := by
  obtain ⟨f,member,rfl⟩ := List.mem_map.1 pending
  simpa using (List.mem_filter.1 member).2

theorem sublist_pendingSources (start : Progress) (files : List Source) :
    (pendingSources start files).Sublist (files.map Prod.fst) :=
  List.filter_sublist.map Prod.fst

end Recast.Converter
