import Recast.Dialogue.Session
import Recast.Progress.Store
import Recast.Run.Event
import Recast.Target.Basic

/-!
What a run changes: the line to the service, the files, the events, and the progress. Steps of a
run may fail; what they changed before stays.
-/

namespace Recast

/-- What a run does for those that come after it: it writes the text of a source, and it hands a
progress to the store while the files are as they are then. -/
inductive Deed where
  | wrote (source content : Text)
  | saved (p : Progress) (t : Tree)

/-- The newest deed comes first. -/
structure World where
  line : Line := {}
  tree : Tree := .empty
  events : List Event := []
  delays : List Float := []
  progress : Option Progress := none
  deeds : List Deed := []

/-- A command given when the n-th event of a kind is published. -/
structure Watch where
  kind : EventKind
  nth : Nat := 1
  command : Command

namespace World

/-- Publishes an event; those that watch for it give their commands. -/
def publish (watches : List Watch) (e : Event) (w : World) : World :=
  let events := w.events ++ [e]
  let seen := events.countP fun d => d.kind = e.kind
  let commands := (watches.filter fun h => h.kind = e.kind && h.nth = seen).map Watch.command
  { w with events := events, line := { w.line with control := w.line.control.obeyAll commands } }

/-- The end of a pause that was not a cancellation. -/
def unpause (w : World) : World :=
  if w.line.control.cancelled then w
  else { w with line := { w.line with control := { w.line.control with paused := false } } }

end World

inductive RunError where
  | talk (e : TalkError)
  | cancelled
  | noExtension
  | noPattern
  | misplaced
  | file (fault : FileFault)
  | store (e : StoreError)

namespace RunError

def message : RunError → Text
  | .talk e => e.message
  | .cancelled => "Cancelled by request"
  | .noExtension => "the path cannot take the extension of the output"
  | .noPattern => "the extension of the input is no pattern"
  | .misplaced => "an import stands on a line that is not there"
  | .file _ => "a file cannot be read or written"
  | .store e => e.message?.getD "the checkpoint cannot be read or written"

end RunError

abbrev Run := ExceptT RunError (StateM World)

namespace Run

variable {α : Type}

/-- What a step gives, or the error that ended it. -/
def observe (step : Run α) : Run (Except RunError α) :=
  ExceptT.mk fun w => let (r, w) := step.run.run w; (.ok r, w)

def talk (t : Talk α) : Run α := ExceptT.mk fun w =>
  let (r, line) := t.run.run w.line
  (r.mapError .talk, { w with line := line })

def control : Run Control := do return (← get).line.control

def emit (watches : List Watch) (e : Event) : Run Unit := modify (World.publish watches e)

def sleep (seconds : Float) : Run Unit := modify fun w => { w with delays := w.delays ++ [seconds] }

/-- Waits while the run is paused; whoever paused it resumes or cancels it. -/
def wait : Run Unit := modify World.unpause

/-- The point where a run can be stopped. -/
def poll (watches : List Watch) : Run Unit := do
  let now ← control
  if now.paused && !now.cancelled then
    emit watches { kind := .paused, message := "Paused" }
    wait
    if !(← control).cancelled then emit watches { kind := .resumed, message := "Resumed" }
  if (← control).cancelled then throw .cancelled

def note (d : Deed) : Run Unit := modify fun w => { w with deeds := d :: w.deeds }

def files (change : Tree → Except FileFault Tree) : Run Unit := do
  match change (← get).tree with
  | .ok t => modify fun w => { w with tree := t }
  | .error fault => throw (.file fault)

end Run

end Recast
