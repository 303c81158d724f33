import Recast.Value.Basic

/-!
The index of a project: for every file the old and the new name of its main type, the namespace
of the type and the path of its output. A bare name stands for an entry only where it belongs to
no other one, and the same holds for a dotted name.
-/

namespace Recast

structure Entry where
  old : Text
  new : Text
  space : Text := []
  source : Text
  output : Text
  deriving DecidableEq, Inhabited

/-- A name inside a namespace; the empty namespace adds nothing. -/
def dotted (space name : Text) : Text := if space.isEmpty then name else space ++ '.' :: name

namespace Entry

def qualified (e : Entry) : Text := dotted e.space e.new

def toValue (e : Entry) : Value := .record
  [("original_name", .text e.old), ("new_name", .text e.new), ("namespace", .text e.space),
    ("source_file_path", .text e.source), ("output_path", .text e.output),
    ("qualified_name", .text e.qualified)]

end Entry

/-- An entry, and the further dotted names under which its type may be imported. -/
structure Registered where
  entry : Entry
  aliases : List Text := []
  deriving DecidableEq, Inhabited

namespace Registered

def names (r : Registered) : List Text :=
  r.entry.qualified :: dotted r.entry.space r.entry.old :: r.aliases

end Registered

/-- The entries in the order in which they were added. -/
structure NameIndex where
  registered : List Registered := []
  frozen : Bool := false
  deriving DecidableEq, Inhabited

inductive IndexError where
  | frozen
  deriving DecidableEq

namespace IndexError

def message : IndexError → Text
  | .frozen => "SymbolIndex is frozen; no entries can be added while rewriting"

end IndexError

namespace NameIndex

def empty : NameIndex := {}

def all (x : NameIndex) : List Entry := x.registered.map Registered.entry

def push (x : NameIndex) (r : Registered) : NameIndex :=
  { x with registered := x.registered ++ [r] }

def add (x : NameIndex) (r : Registered) : Except IndexError NameIndex :=
  if x.frozen then .error .frozen else .ok (x.push r)

def freeze (x : NameIndex) : NameIndex := { x with frozen := true }

/-- The entry that was the first to have an old name. -/
def get? (x : NameIndex) (old : Text) : Option Entry := x.all.find? fun e => e.old == old

def contains (x : NameIndex) (old : Text) : Bool := x.all.any fun e => e.old == old

def hasNew (x : NameIndex) (new : Text) : Bool := x.all.any fun e => e.new == new

def hasOutput (x : NameIndex) (path : Text) : Bool := x.all.any fun e => e.output == path

/-- Several entries have the name as their old one, or several as their new one. -/
def ambiguous (x : NameIndex) (name : Text) : Bool :=
  1 < x.all.countP (fun e => e.old == name) || 1 < x.all.countP fun e => e.new == name

/-- The entry of a bare name, old names coming first. -/
def resolve? (x : NameIndex) (name : Text) : Option Entry :=
  if x.ambiguous name then none
  else (x.get? name).orElse fun _ => x.all.find? fun e => e.new == name

/-- The entry of a dotted name. -/
def resolveDotted? (x : NameIndex) (name : Text) : Option Entry :=
  match x.registered.filter fun r => r.names.contains name with
  | [r] => some r.entry
  | _ => none

/-- The newest entry of a source file. -/
def bySource? (x : NameIndex) (source : Text) : Option Entry :=
  x.all.reverse.find? fun e => e.source == source

def sources (x : NameIndex) : List Text := (x.all.map Entry.source).foldl
  (fun seen s => if seen.contains s then seen else seen ++ [s]) []

/-- One entry for every source file. -/
def entries (x : NameIndex) : List Entry := x.sources.filterMap x.bySource?

def size (x : NameIndex) : Nat := x.sources.length

def firstOwners : List Text → List Entry → List Entry
  | _, [] => []
  | seen, e :: es => if seen.contains e.old then firstOwners seen es else e :: firstOwners (e.old :: seen) es

/-- The old names that change, each with the new name that its first owner has. -/
def renames (x : NameIndex) : List (Text × Text) :=
  (firstOwners [] x.all).filterMap fun e => if e.new == e.old then none else some (e.old, e.new)

end NameIndex

end Recast
