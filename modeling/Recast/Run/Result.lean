import Recast.Progress.State
import Recast.Target.Issue

/-!
Converted files and the result of a run, which counts the files that it is given.
-/

namespace Recast

structure Converted where
  source : Text
  output : Text
  content : Text := []
  outcome : FileOutcome
  issues : List Issue := []
  failedChunks : List Int := []
  exhausted : Bool := false
  message : Option Text := none
  deriving DecidableEq

namespace Converted

def check (v : Value) : Checked Converted :=
  Converted.mk
  <$> Check.required "source_path" Check.text v
  <*> Check.required "output_path" Check.text v
  <*> Check.field "content" [] Check.text v
  <*> Check.required "outcome" Progress.outcomeCheck v
  <*> Check.field "errors" [] (Check.list Issue.check) v
  <*> Check.field "failed_chunks" [] (Check.list Check.whole) v
  <*> Check.field "repair_exhausted" false Check.truth v
  <*> Check.field "message" none (Check.optional Check.text) v

/-- What is said of a file when it is done. -/
def note (f : Converted) : Text :=
  match f.message with
  | some m => if m.isEmpty then f.outcome.name else m
  | none => f.outcome.name

def toValue (f : Converted) : Value := .record
  [("source_path", .text f.source), ("output_path", .text f.output), ("content", .text f.content),
    ("outcome", .text f.outcome.name), ("errors", .list (f.issues.map Issue.toValue)),
    ("failed_chunks", .list (f.failedChunks.map .int)), ("repair_exhausted", .bool f.exhausted),
    ("message", .optional .text f.message)]

end Converted

structure RunResult where
  clean : Nat := 0
  flagged : Nat := 0
  failed : Nat := 0
  failedPaths : List Text := []
  flaggedPaths : List Text := []
  files : List Converted := []
  passes : Nat := 0
  converged : Bool := true
  cancelled : Bool := false
  deriving DecidableEq

namespace RunResult

def add (r : RunResult) (f : Converted) : RunResult :=
  let r := { r with files := r.files ++ [f] }
  match f.outcome with
  | .clean => { r with clean := r.clean + 1 }
  | .flagged => { r with flagged := r.flagged + 1, flaggedPaths := r.flaggedPaths ++ [f.source] }
  | .failed => { r with failed := r.failed + 1, failedPaths := r.failedPaths ++ [f.source] }

@[simp] theorem files_add (r : RunResult) (f : Converted) : (r.add f).files = r.files ++ [f] := by
  unfold add
  cases f.outcome <;> rfl

@[simp] theorem cancelled_add (r : RunResult) (f : Converted) : (r.add f).cancelled = r.cancelled := by
  unfold add
  cases f.outcome <;> rfl

/-- The result with its files in a form of the caller's choice. -/
def toValue (files : List Converted → Value) (r : RunResult) : Value := .record
  [("clean", .int r.clean), ("flagged", .int r.flagged), ("failed", .int r.failed),
    ("failed_paths", .texts r.failedPaths), ("flagged_paths", .texts r.flaggedPaths),
    ("files", files r.files), ("rewrite_iterations", .int r.passes),
    ("rewrite_converged", .bool r.converged), ("cancelled", .bool r.cancelled)]

/-- Changes the newest file of a source. -/
def updateLast (source : Text) (change : Converted → Converted) : List Converted → List Converted
  | [] => []
  | f :: rest =>
    if rest.any fun g => g.source == source then f :: updateLast source change rest
    else if f.source == source then change f :: rest
    else f :: rest

theorem map_updateLast {β : Type} {seen : Converted → β} {source : Text} {change : Converted → Converted}
    (kept : ∀ f, seen (change f) = seen f) (files : List Converted) :
    (updateLast source change files).map seen = files.map seen := by
  induction files with
  | nil => rfl
  | cons f rest ih =>
    unfold updateLast
    split
    · rw [List.map_cons, List.map_cons, ih]
    · split
      · rw [List.map_cons, List.map_cons, kept]
      · rfl

end RunResult

end Recast
