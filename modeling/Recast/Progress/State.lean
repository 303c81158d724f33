import Recast.Check.Basic
import Recast.Progress.Percent
import Recast.Value.Json

/-!
The progress of a project: what became of each file, where its output is, and a running summary of
what was done. The counters follow from the outcomes whenever one is recorded.
-/

namespace Recast

/-- What became of a file. -/
inductive FileOutcome where
  | clean
  | flagged
  | failed
  deriving DecidableEq, Inhabited

namespace FileOutcome

def name : FileOutcome → Text
  | .clean => "translated_clean"
  | .flagged => "translated_flagged"
  | .failed => "failed"

def all : List FileOutcome := [.clean, .flagged, .failed]

def ofName? (s : Text) : Option FileOutcome := all.find? fun o => o.name = s

/-- The file has an output. -/
def completed (o : FileOutcome) : Bool := o ≠ .failed

end FileOutcome

/-- Values under names, in the order in which the names came. -/
abbrev Table (α : Type) := List (Text × α)

namespace Table

variable {α : Type}

def get? (t : Table α) (name : Text) : Option α := (t.find? fun e => e.1 == name).map (·.2)

def set (t : Table α) (name : Text) (a : α) : Table α :=
  if t.any fun e => e.1 == name then t.map fun e => if e.1 == name then (name, a) else e
  else t ++ [(name, a)]

def names (t : Table α) : List Text := t.map (·.1)

def sorted (t : Table α) : Table α := Ordered.sort (fun a b => Text.ordered a.1 b.1) t

end Table

structure Progress where
  version : Int := 1
  id : Text
  root : Text
  output : Text
  outputs : Table Text := []
  processed : Int := 0
  total : Int := 0
  percent : Int := 0
  summary : Text := []
  outcomes : Table FileOutcome := []
  failed : List Text := []
  created : Float
  updated : Float

namespace Progress

def percentage (p : Progress) : Int := Percent.of p.processed p.total

def isCompleted (p : Progress) (source : Text) : Bool :=
  (p.outcomes.get? source).any FileOutcome.completed

def completedPaths (p : Progress) : List Text :=
  Text.sorted (p.outcomes.names.filter p.isCompleted)

def countCompleted (outcomes : Table FileOutcome) : Nat := outcomes.countP fun e => e.2.completed

/-- The counters as the outcomes have them. -/
def recount (p : Progress) : Progress :=
  let p := { p with processed := countCompleted p.outcomes }
  { p with percent := p.percentage }

/-- A file that has an output leaves the list of those that failed. -/
def withOutcome (p : Progress) (source : Text) (output : Option Text) (o : FileOutcome) : Progress :=
  let p := { p with outcomes := p.outcomes.set source o }
  match o, output with
  | .failed, _ => if p.failed.contains source then p else { p with failed := p.failed ++ [source] }
  | _, some output =>
    { p with outputs := p.outputs.set source output, failed := p.failed.erase source }
  | _, none => p

def record (p : Progress) (source : Text) (output : Option Text) (o : FileOutcome) (now : Float) :
    Progress :=
  { (p.withOutcome source output o).recount with updated := now }

/-- The last characters of a text, as many as the bound says; a bound that is not positive counts
from the other end. -/
def lastChars (bound : Int) (s : Text) : Text :=
  if (s.length : Int) ≤ bound then s
  else s.drop (if 0 < bound then s.length - bound.toNat else (-bound).toNat)

/-- Cuts off the first line, unless nothing else is left. -/
def dropFirstLine (s : Text) : Text :=
  let rest := (s.dropWhile (· ≠ '\n')).drop 1
  if rest.isEmpty then s else rest

/-- Adds to the summary and keeps its newest part, from the beginning of a line where possible. -/
def appendSummary (p : Progress) (text : Text) (bound : Int) : Progress :=
  let text := Text.trim text
  if text.isEmpty then p
  else
    let all := Text.trim (p.summary ++ '\n' :: text)
    { p with summary := if bound < all.length then dropFirstLine (lastChars bound all) else all }

def outcomeCheck : Check FileOutcome := Check.choiceOf FileOutcome.ofName?

/-- Reads a record; what it leaves out is taken from a new one. -/
def check (fresh : Progress) (v : Value) : Checked Progress :=
  Progress.mk
  <$> Check.field "version" 1 Check.whole v
  <*> Check.field "session_id" fresh.id Check.text v
  <*> Check.required "root_directory" Check.text v
  <*> Check.required "output_directory" Check.text v
  <*> Check.field "file_name_map" [] (Check.dict Check.text) v
  <*> Check.field "files_processed_count" 0 Check.whole v
  <*> Check.field "total_files" 0 Check.whole v
  <*> Check.field "last_progress_percent" 0 Check.whole v
  <*> Check.field "accumulated_meta_summary" [] Check.text v
  <*> Check.field "file_outcomes" [] (Check.dict outcomeCheck) v
  <*> Check.field "failed_paths" [] (Check.list Check.text) v
  <*> Check.field "created_at" fresh.created Check.number v
  <*> Check.field "updated_at" fresh.updated Check.number v

/-- The record under its names, which stand in order. -/
def toValue (p : Progress) : Value := .record
  [("accumulated_meta_summary", .text p.summary),
    ("created_at", .float p.created),
    ("failed_paths", .list (p.failed.map .text)),
    ("file_name_map", .dict (p.outputs.sorted.map fun e => (e.1, .text e.2))),
    ("file_outcomes", .dict (p.outcomes.sorted.map fun e => (e.1, .text e.2.name))),
    ("files_processed_count", .int p.processed),
    ("last_progress_percent", .int p.percent),
    ("output_directory", .text p.output),
    ("root_directory", .text p.root),
    ("session_id", .text p.id),
    ("total_files", .int p.total),
    ("updated_at", .float p.updated),
    ("version", .int p.version)]

end Progress

end Recast
