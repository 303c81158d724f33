import Recast.Text.Basic

/-!
Slash-separated paths in normal form: repeated slashes and single dots are gone, and two leading
slashes (but not three) stay two.
-/

namespace Recast

structure Path where
  root : Text
  parts : List Text
  deriving DecidableEq, BEq, Inhabited

namespace Path

def partsOf (s : Text) : List Text :=
  (Text.pieces '/' s).filter fun p => !p.isEmpty && p ≠ ['.']

def ofText (s : Text) : Path :=
  let root : Text := match s with
    | '/' :: '/' :: '/' :: _ => "/"
    | '/' :: '/' :: _ => "//"
    | '/' :: _ => "/"
    | _ => ""
  ⟨root, partsOf s⟩

def toText (p : Path) : Text :=
  if p.root.isEmpty && p.parts.isEmpty then "." else p.root ++ Text.join "/" p.parts

/-- The path `q` as seen from `p`; a rooted `q` stands for itself. -/
def append (p q : Path) : Path := if q.root.isEmpty then ⟨p.root, p.parts ++ q.parts⟩ else q

def child (p : Path) (s : Text) : Path := p.append (ofText s)

def ofParts (parts : List Text) : Path := parts.foldl child ⟨"", []⟩

def parent (p : Path) : Path := ⟨p.root, p.parts.dropLast⟩

/-- The parts, the root of a rooted path being the first of them. -/
def allParts (p : Path) : List Text := if p.root.isEmpty then p.parts else p.root :: p.parts

def name (p : Path) : Text := p.parts.getLast?.getD []

/-- The name before its last point and the point with what follows it, where neither side of the
point is empty. -/
def splitName (name : Text) : Text × Text :=
  match Text.cutLast? ['.'] name with
  | some (before, behind) =>
    if before.isEmpty || behind.isEmpty then (name, []) else (before, '.' :: behind)
  | none => (name, [])

def stem (p : Path) : Text := (splitName p.name).1

/-- The path with another extension; refused for a path without a name and for an extension that
is no extension. -/
def withExtension? (p : Path) (extension : Text) : Option Path :=
  if extension.contains '/' || (!extension.isEmpty && extension.head? ≠ some '.') ||
      extension = ['.'] || p.name.isEmpty then none
  else some ⟨p.root, p.parts.dropLast ++ [(splitName p.name).1 ++ extension]⟩

end Path

end Recast
