import Recast.Dialogue.Session
import Recast.Target.Issue

/-!
Repair of code that is not well formed. A pass asks for a replacement of every line with an issue,
from the first issue to the last, and checks the code anew after each replacement; passes follow
each other until no issue is left or the bound is reached. Then the best code seen counts, the
earliest of those with the fewest issues.
-/

namespace Recast

/-- What repairs code: who is asked, what finds the issues, and how many passes there may be. -/
structure Repairer where
  session : Session
  issues : Text → List Issue
  maxDepth : Nat

structure RepairReport where
  attempts : Nat := 0
  depth : Nat := 0
  exhausted : Bool := false
  remaining : List Issue := []
  deriving DecidableEq

/-- A repair under way. Without a history of its own every request begins a new one. `asked` holds
the lines that were sent for a replacement, and `checked` the codes whose issues were looked for,
both with the newest first. -/
structure RepairState where
  line : Line
  history : Option History
  best : Text × List Issue
  report : RepairReport := {}
  asked : List Text := []
  checked : List Text := []

abbrev Repairing := ExceptT TalkError (StateM RepairState)

/-- The code within a pass. Each line is one of the code's lines or part of a replacement; `offset`
says how far the lines below have moved. -/
structure Patch where
  lines : List Text
  offset : Int := 0
  remaining : List Issue
  substituted : Bool := false
  deriving DecidableEq

namespace Patch

def code (p : Patch) : Text := p.lines.flatten

/-- The place of an issue's line, if it has one. -/
def place? (p : Patch) (issue : Issue) : Option Nat :=
  let target := issue.line + p.offset
  if issue.line < 1 || target < 1 || (p.lines.length : Int) < target then none
  else some (target - 1).toNat

/-- The lines of a replacement, which end as the line did that they replace. -/
def replacementLines (replacement line : Text) : List Text :=
  if Text.blank replacement then []
  else
    let ending := Text.ending line
    let inner := if ending.isEmpty then ['\n'] else ending
    let parts := (Text.pieces '\n' (Text.dropEnding replacement)).map
      (Text.dropEndWhile (· = '\r'))
    parts.dropLast.map (· ++ inner) ++ (parts.getLast?.map (· ++ ending)).toList

/-- Puts lines in place of one; none where they are the same. -/
def substitute? (p : Patch) (place : Nat) (replacement : Text) : Option Patch :=
  match p.lines[place]? with
  | none => none
  | some line =>
    let new := replacementLines replacement line
    if new = [line] then none
    else some { p with
      lines := p.lines.take place ++ new ++ p.lines.drop (place + 1)
      offset := p.offset + new.length - 1
      substituted := true }

theorem substituted_of_substitute? {p q : Patch} {place : Nat} {replacement : Text}
    (put : p.substitute? place replacement = some q) : q.substituted = true := by
  unfold substitute? at put
  split at put
  · cases put
  · dsimp only at put
    split at put
    · cases put
    · cases put
      rfl

end Patch

namespace Repairer

def contextLines : Nat := 3

def instruction (language : Text) : Text :=
  "The line below does not parse as " ++ language ++ ". Rewrite it so that it does, " ++
    "keeping its meaning. Return only the replacement line(s), nothing else."

/-- A line with its number, and with a mark on the one that is asked about. -/
def numberedLine (place i : Nat) (line : Text) : Text :=
  let number := Numeral.ofNat (i + 1)
  List.replicate (5 - number.length) ' ' ++ number ++ (if i = place then ">" else " ") ++
    " " ++ Text.trimRight line ++ "\n"

def neighbourhood (lines : List Text) (place : Nat) : Text :=
  let first := place - contextLines
  let shown := (lines.take (place + contextLines + 1)).drop first
  (shown.mapIdx fun i line => numberedLine place (first + i) line).flatten

def context (lines : List Text) (place : Nat) (issue : Issue) : Text :=
  "Error: " ++ issue.shown ++ "\nSurrounding lines:\n" ++ neighbourhood lines place

variable (r : Repairer)

/-- Asks for a replacement of a line; none where no answer comes to an end. -/
def requestFix (lines : List Text) (place : Nat) (issue : Issue) : Repairing (Option Text) := do
  let state ← get
  let asked := (lines[place]?).getD []
  let history := state.history.getD r.session.newHistory
  let (answer, line) := (r.session.convert (instruction r.session.language.target) asked
    (context lines place issue) history).run.run state.line
  let state := { state with line := line, asked := asked :: state.asked }
  set state
  match answer with
  | .ok (code, history) =>
    set { state with history := state.history.map fun _ => history }
    return some code
  | .error (.incomplete _ _) => return none
  | .error e => throw e

/-- A code with fewer issues than the best one takes its place. -/
def better (best : Text × List Issue) (code : Text) (issues : List Issue) : Text × List Issue :=
  if issues.length < best.2.length then (code, issues) else best

def check (p : Patch) : Repairing Patch := do
  let issues := r.issues p.code
  modify fun s => { s with best := better s.best p.code issues, checked := p.code :: s.checked }
  return { p with remaining := issues }

/-- One issue; none where there is nothing to do about it. -/
def fix (p : Patch) (issue : Issue) : Repairing (Option Patch) := do
  match p.place? issue with
  | none => return none
  | some place =>
    modify fun s => { s with report := { s.report with attempts := s.report.attempts + 1 } }
    match ← r.requestFix p.lines place issue with
    | none => return none
    | some replacement =>
      match p.substitute? place replacement with
      | none => return none
      | some p => some <$> r.check p

/-- The issues of a pass from the first to the last; a code without issues ends it. -/
def pass : List Issue → Patch → Repairing Patch
  | [], p => return p
  | issue :: rest, p => do
    match ← r.fix p issue with
    | none => pass rest p
    | some p => if p.remaining.isEmpty then return p else pass rest p

def finished (code : Text) : Repairing Text := do
  modify fun s => { s with report := { s.report with remaining := [] } }
  return code

/-- Gives up with the best code seen. -/
def exhausted : Repairing Text := do
  let s ← get
  set { s with report := { s.report with exhausted := true, remaining := s.best.2 } }
  return s.best.1

/-- Passes over a code with its issues; the first number says how many may follow. -/
def passes : Nat → Nat → Text → List Issue → Repairing Text
  | left, depth, code, issues => do
    modify fun s => { s with report := { s.report with depth := depth } }
    if issues.isEmpty then finished code
    else match left with
      | 0 => exhausted
      | left + 1 =>
        let p ← r.pass issues { lines := Text.lines code, remaining := issues }
        if !p.substituted then exhausted
        else if p.remaining.isEmpty then finished p.code
        else passes left (depth + 1) p.code p.remaining

/-- The repaired code, or the error that ended the repair, and the state that was reached. -/
def repair (code : Text) (issues : List Issue) (history : Option History) (line : Line) :
    Except TalkError Text × RepairState :=
  (r.passes r.maxDepth 0 code issues).run.run { line := line, history := history, best := (code, issues) }

end Repairer

end Recast
