import Recast.Dialogue.Session
import Recast.Target.Basic

/-!
The names of a project's types. Files are named one after the other in the order of their paths; a
name that is taken gets a number, and the name of a type that changes is taken by every old name
and by every new one.
-/

namespace Recast

/-- How types are named; without a session every type keeps its name where it can. -/
structure Namer where
  target : Target
  package : Option Text := none
  session : Option Session := none

/-- A file whose main type has no new name yet. -/
structure Unnamed where
  source : Text
  content : Text
  old : Text

namespace Namer

variable (n : Namer)

/-- The type that a file is about, or else a name made from the file's own. -/
def oldName (source content : Text) : Text :=
  match n.target.mainType? content with
  | some name => if name.isEmpty then Naming.pascal (Path.ofText source).stem else name
  | none => Naming.pascal (Path.ofText source).stem

def spaceOf (source name : Text) : Text := n.target.space (.ofText source) name n.package

def outputOf (source name : Text) : Text := n.target.output (n.spaceOf source name) name

def aliases (source old : Text) : List Text :=
  let directories := Text.join ['.'] ((Path.ofText source).parent.allParts.map Naming.segment)
  [dotted (n.spaceOf source old) old, dotted (n.target.space (.ofText source) old none) old,
    dotted directories old]

/-- A type that keeps its name clashes with another one only where their outputs are the same. -/
def taken (index : NameIndex) (olds : List Text) (source old name : Text) : Bool :=
  index.hasOutput (n.outputOf source name) ||
    (name != old && (olds.contains name || index.hasNew name))

def numbered (name : Text) (i : Nat) : Text := name ++ '_' :: Numeral.ofNat i

/-- The first numbered name, from `i` on, that is not taken. -/
def firstFree (taken : Text → Bool) (name : Text) (i : Nat) : Nat → Text
  | 0 => numbered name i
  | fuel + 1 =>
    if taken (numbered name i) then firstFree taken name (i + 1) fuel else numbered name i

/-- Each numbered name can be refused for an output, a new name or an old name, and none of these
refuses two of them. -/
def bound (index : NameIndex) (olds : List Text) : Nat := 2 * index.all.length + olds.length

def chosen (index : NameIndex) (olds : List Text) (source old name : Text) : Text :=
  if n.taken index olds source old name then
    firstFree (n.taken index olds source old) name 1 (bound index olds)
  else name

/-- The name that the service suggests; a service that fails leaves the old one. -/
def suggested (old content : Text) : Talk Text :=
  match n.session with
  | none => return old
  | some session =>
    tryCatch (session.suggestName old content) fun
      | .service _ => return old
      | e => throw e

def entry (source old new : Text) : Entry where
  old := old
  new := new
  space := n.spaceOf source new
  source := source
  output := n.outputOf source new

def register (index : NameIndex) (olds : List Text) (f : Unnamed) (name : Text) : NameIndex :=
  index.push ⟨n.entry f.source f.old (n.chosen index olds f.source f.old name), n.aliases f.source f.old⟩

def nameAll (olds : List Text) : List Unnamed → NameIndex → Talk NameIndex
  | [], index => return index.freeze
  | f :: rest, index => do
    let name ← n.suggested f.old f.content
    nameAll olds rest (n.register index olds f name)

def unnamed (files : List (Text × Text)) : List Unnamed :=
  (Ordered.sort (fun a b => Text.ordered a.1 b.1) files).map fun (source, content) =>
    ⟨source, content, n.oldName source content⟩

/-- The index of a project's files. -/
def index (files : List (Text × Text)) : Talk NameIndex :=
  let files := n.unnamed files
  n.nameAll (files.map Unnamed.old) files .empty

end Namer

end Recast
