import Recast.Files.Encoding
import Recast.Path
import Recast.Text.Line

/-!
Folders and files as a value. `file?_put` and `file?_erase` say that writing and removing one file
leaves all others as they are.
-/

namespace Recast

inductive Content where
  | text (s : Text)
  | bytes (bs : List UInt8)
  deriving DecidableEq, Inhabited

namespace Content

def strict? : Content → Option Text
  | .text s => some s
  | .bytes bs => Encoding.strict? bs

def lossy : Content → Text
  | .text s => s
  | .bytes bs => Encoding.lossy bs

end Content

inductive FileFault where
  | present
  | missing
  | notFolder
  | folder
  | undecodable
  deriving DecidableEq

/-- A place in a tree: the names on the way to it. -/
abbrev Key := List Text

namespace Key

/-- Goes one step; two points lead back. -/
def descend (k : Key) (part : Text) : Key :=
  if part = "..".toList && !k.isEmpty && k ≠ [['/']] && k.getLast? ≠ some "..".toList then k.dropLast
  else k ++ [part]

def ofPath (p : Path) : Key :=
  p.parts.foldl descend (if p.root.isEmpty then [] else [['/']])

/-- The places above another one, the outermost first. -/
def above (k : Key) : List Key := (List.range k.length).map fun n => k.take n

end Key

structure Tree where
  folders : List Key := []
  files : List (Key × Content) := []
  deriving Inhabited

namespace Tree

def empty : Tree := {}

def isFolder (t : Tree) (k : Key) : Bool := k.isEmpty || k = [['/']] || t.folders.contains k

def file? (t : Tree) (k : Key) : Option Content := (t.files.find? fun f => f.1 == k).map (·.2)

def isFile (t : Tree) (k : Key) : Bool := (t.file? k).isSome

def exists? (t : Tree) (k : Key) : Bool := t.isFile k || t.isFolder k

def put (t : Tree) (k : Key) (c : Content) : Tree :=
  { t with files := (t.files.filter fun f => f.1 != k) ++ [(k, c)] }

def erase (t : Tree) (k : Key) : Tree := { t with files := t.files.filter fun f => f.1 != k }

def belowFile (t : Tree) (k : Key) : Bool := (Key.above k).any t.isFile

/-- Makes a folder and those above it, as far as they are not there. -/
def makeFolders (t : Tree) (k : Key) : Except FileFault Tree :=
  if t.isFolder k then .ok t
  else if t.isFile k then .error .present
  else if t.belowFile k then .error .notFolder
  else .ok { t with
    folders := t.folders ++ (Key.above k ++ [k]).filter fun a => !t.isFolder a }

/-- Why a place cannot be reached, if it cannot. -/
def blocked? (t : Tree) (k : Key) : Option FileFault :=
  if t.isFolder k then some .folder
  else if t.belowFile k then some .notFolder
  else if !t.isFolder k.dropLast then some .missing
  else none

def write (t : Tree) (k : Key) (c : Content) : Except FileFault Tree :=
  match t.blocked? k with
  | some fault => .error fault
  | none => .ok (t.put k c)

/-- Writes a file after making the folders above it. -/
def place (t : Tree) (k : Key) (c : Content) : Except FileFault Tree :=
  (t.makeFolders k.dropLast).bind fun t => t.write k c

def read (t : Tree) (k : Key) : Except FileFault Content :=
  match t.file? k with
  | some c => .ok c
  | none => .error ((t.blocked? k).getD .missing)

/-- The text of a file, every line ending being a line feed. -/
def readText (t : Tree) (k : Key) : Except FileFault Text :=
  (t.read k).bind fun c =>
    match c.strict? with
    | some s => .ok (Text.plainFeeds s)
    | none => .error .undecodable

/-- Removes a file if it is there. -/
def remove (t : Tree) (k : Key) : Except FileFault Tree :=
  match t.blocked? k with
  | some .missing => .ok t
  | some fault => .error fault
  | none => .ok (t.erase k)

/-- The files below a folder, with the names on the way from it. -/
def below (t : Tree) (k : Key) : List (Key × Content) :=
  t.files.filterMap fun f =>
    if k.length < f.1.length && k.isPrefixOf f.1 then some (f.1.drop k.length, f.2) else none

theorem find?_others (files : List (Key × Content)) (k other : Key) :
    (files.filter fun f => f.1 != k).find? (fun f => f.1 == other) =
      if other = k then none else files.find? fun f => f.1 == other := by
  induction files with
  | nil => simp
  | cons f files ih =>
    by_cases here : f.1 = k
    · subst here
      by_cases same : other = f.1
      · subst same
        simp [ih]
      · have apart : (f.1 == other) = false := by simpa using Ne.symm same
        simpa [same, List.find?_cons, apart] using ih
    · have kept : (f.1 != k) = true := by simpa using here
      rw [List.filter_cons, if_pos kept, List.find?_cons, List.find?_cons, ih]
      by_cases same : other = k
      · subst same
        have apart : (f.1 == other) = false := by simpa using here
        simp [apart]
      · simp only [if_neg same]

theorem file?_erase (t : Tree) (k other : Key) :
    (t.erase k).file? other = if other = k then none else t.file? other := by
  unfold erase file?
  rw [find?_others]
  split <;> rfl

theorem file?_put (t : Tree) (k other : Key) (c : Content) :
    (t.put k c).file? other = if other = k then some c else t.file? other := by
  unfold put file?
  rw [List.find?_append, find?_others]
  by_cases same : other = k
  · subst same
    simp
  · have apart : (k == other) = false := by simpa using Ne.symm same
    simp [same, apart]

end Tree

end Recast
