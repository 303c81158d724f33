import Recast.Progress.State

/-!
What a run reports while it goes on.
-/

namespace Recast

inductive EventKind where
  | runStarted
  | fileStarted
  | chunkConverted
  | repairRound
  | fileFinished
  | renamingFinished
  | paused
  | resumed
  | cancelled
  | runFinished
  | error
  deriving DecidableEq, Inhabited

namespace EventKind

def name : EventKind → Text
  | .runStarted => "run_started"
  | .fileStarted => "file_started"
  | .chunkConverted => "chunk_translated"
  | .repairRound => "repair_round"
  | .fileFinished => "file_finished"
  | .renamingFinished => "rewrite_finished"
  | .paused => "paused"
  | .resumed => "resumed"
  | .cancelled => "cancelled"
  | .runFinished => "run_finished"
  | .error => "error"

def all : List EventKind :=
  [.runStarted, .fileStarted, .chunkConverted, .repairRound, .fileFinished, .renamingFinished,
    .paused, .resumed, .cancelled, .runFinished, .error]

def ofName? (s : Text) : Option EventKind := all.find? fun k => k.name = s

end EventKind

structure Event where
  kind : EventKind
  message : Text := []
  path : Option Text := none
  current : Int := 0
  total : Int := 0
  outcome : Option FileOutcome := none
  deriving DecidableEq, Inhabited

namespace Event

def percent (e : Event) : Int := Percent.of e.current e.total

def toValue (e : Event) : Value := .record
  [("kind", .text e.kind.name), ("message", .text e.message), ("path", .optional .text e.path),
    ("current", .int e.current), ("total", .int e.total),
    ("outcome", .optional (fun o => .text o.name) e.outcome), ("percent", .int e.percent)]

end Event

end Recast
