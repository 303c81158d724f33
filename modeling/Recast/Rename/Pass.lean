import Recast.Target.Basic

/-!
A renaming carried through the files of a project. In every file the package and import lines
follow the index first, and then the old names become the new ones everywhere else, all at once;
this goes on until nothing changes any more or the bound is reached.
-/

namespace Recast

namespace Renaming

/-- Characters that belong to a name. -/
def isNameChar (c : Char) : Bool := Text.isWord c || c = '$'

/-- A name of the list that the text begins with and that ends there. -/
def here? (renames : List (Text × Text)) (s : Text) : Option (Text × Text) :=
  renames.find? fun r => r.1.isPrefixOf s && !(s.drop r.1.length).head?.any isNameChar

/-- Replaces the names of a text; `skip` characters still belong to the name found last, and
`inside` says that the character before belongs to a name. -/
def substituteFrom (renames : List (Text × Text)) : Nat → Bool → Text → Text
  | _, inside, [] =>
    match if inside then none else here? renames [] with
    | some (_, new) => new
    | none => []
  | skip + 1, _, c :: r => substituteFrom renames skip (isNameChar c) r
  | 0, inside, c :: r =>
    match if inside then none else here? renames (c :: r) with
    | some ([], new) => new ++ c :: substituteFrom renames 0 (isNameChar c) r
    | some (_ :: more, new) => new ++ substituteFrom renames more.length (isNameChar c) r
    | none => c :: substituteFrom renames 0 (isNameChar c) r

def substitute (renames : List (Text × Text)) (s : Text) : Text := substituteFrom renames 0 false s

/-- Replaces the names outside the spans; a span that begins before the end of another is left
out. -/
def outside (renames : List (Text × Text)) (code : Text) (place : Nat) : List Span → Text
  | [] => substitute renames (code.drop place)
  | (start, stop) :: rest =>
    if start < place then outside renames code place rest
    else
      substitute renames ((code.take start).drop place) ++ (code.take stop).drop start ++
        outside renames code stop rest

/-- Longer names come first, so that no name hides one that it begins. -/
def longestFirst (renames : List (Text × Text)) : List (Text × Text) :=
  Ordered.sort (fun a b => b.1.length ≤ a.1.length) renames

end Renaming

namespace NameIndex

/-- The renames as one file sees them: of several types of a name it means its own. -/
def renamesFor (index : NameIndex) (source : Text) : List (Text × Text) :=
  match index.bySource? source with
  | none => index.renames
  | some own =>
    if own.new == own.old then index.renames.filter fun r => r.1 != own.old
    else if index.renames.any fun r => r.1 == own.old then
      index.renames.map fun r => if r.1 == own.old then (own.old, own.new) else r
    else index.renames ++ [(own.old, own.new)]

end NameIndex

/-- What a renaming did to the files of a project. -/
structure RenamingReport where
  files : List (Text × Text)
  passes : Nat := 0
  converged : Bool := true
  modified : List Text := []
  deriving DecidableEq

namespace Renaming

variable (target : Target) (index : NameIndex)

def structural (source code : Text) : Option Text :=
  target.restructure code (index.bySource? source) index

def identifiers (source code : Text) : Option Text :=
  let renames := index.renamesFor source
  if renames.isEmpty then some code
  else (target.spans code).map (outside (longestFirst renames) code 0)

def file (source code : Text) : Option Text :=
  (structural target index source code).bind (identifiers target index source)

def sortedFiles (files : List (Text × Text)) : List (Text × Text) :=
  Ordered.sort (fun a b => Text.ordered a.1 b.1) files

/-- The paths whose content is not what it was. -/
def changed : List (Text × Text) → List (Text × Text) → List Text
  | (path, old) :: before, (_, new) :: after =>
    if old == new then changed before after else path :: changed before after
  | _, _ => []

def fileEach : List (Text × Text) → Option (List (Text × Text))
  | [] => some []
  | (source, code) :: rest =>
    match file target index source code, fileEach rest with
    | some new, some more => some ((source, new) :: more)
    | _, _ => none

/-- Every file once, and the paths of those that changed. -/
def pass (files : List (Text × Text)) : Option (List (Text × Text) × List Text) :=
  (fileEach target index (sortedFiles files)).map fun after =>
    (after, changed (sortedFiles files) after)

/-- Adds paths that are not in the list yet. -/
def union (paths more : List Text) : List Text :=
  paths ++ more.filter fun p => !paths.contains p

/-- Passes until one changes nothing; the number says how many may follow. -/
def run : Nat → RenamingReport → Option RenamingReport
  | 0, report => some { report with converged := false }
  | n + 1, report =>
    match pass target index report.files with
    | none => none
    | some (files, changed) =>
      let report := { report with
        files := files, passes := report.passes + 1, modified := union report.modified changed }
      if changed.isEmpty then some report else run n report

def apply (bound : Nat) (files : List (Text × Text)) : Option RenamingReport :=
  run target index bound { files := files }

end Renaming

end Recast
