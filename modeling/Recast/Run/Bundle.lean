import Recast.Text.Blank
import Recast.Text.Line

/-!
Several files in one text, each behind a line with its path. The text comes apart again only where
the marker lines name exactly the files that went in.
-/

namespace Recast.Bundle

def opening : Text := "@@FILE "

def closing : Text := "@@"

def marker (path : Text) : Text := opening ++ path ++ closing ++ ['\n']

def feedClosed (s : Text) : Text := if s.isEmpty || Text.endsWith "\n" s then s else s ++ ['\n']

def join (files : List (Text × Text)) : Text :=
  (files.map fun f => marker f.1 ++ feedClosed f.2).flatten

def isGap (c : Char) : Bool := c = ' ' || c = '\t'

/-- A closing mark, with blanks up to the end of the line. -/
def closes (s : Text) : Bool :=
  match Text.after? closing s with
  | none => false
  | some behind =>
    let rest := behind.dropWhile isGap
    rest = [] || rest = ['\n'] || rest = ['\r', '\n']

/-- The shortest beginning of a line, not empty, that a closing mark ends. -/
def pathBefore? : Text → Option Text
  | [] => none
  | c :: r =>
    if c = '\n' then none
    else if closes r then some [c]
    else (pathBefore? r).map (c :: ·)

/-- The path on a marker line. -/
def markedPath? (line : Text) : Option Text :=
  (Text.after? opening (line.dropWhile isGap)).bind pathBefore?

/-- The text before the first marker line, and the marked paths with the text behind each. -/
def sections : List Text → Text × List (Text × Text)
  | [] => ([], [])
  | line :: rest =>
    let (front, found) := sections rest
    match markedPath? line with
    | some path => ([], (Text.trim path, front) :: found)
    | none => (line ++ front, found)

/-- The files of a text that holds exactly the files named, in their order. -/
def split? (code : Text) (paths : List Text) : Option (List (Text × Text)) :=
  let (front, found) := sections (Text.feedLines code)
  if found.map (·.1) = paths && !found.isEmpty && Text.blank front then some found else none

end Recast.Bundle
