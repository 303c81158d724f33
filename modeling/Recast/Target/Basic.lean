import Recast.Path
import Recast.Rename.Index
import Recast.Settings.Basic
import Recast.Target.Issue
import Recast.Target.Naming
import Recast.Text.Line

/-!
What a project knows of its target language: whether code is well formed, which type a file is
about, where a file goes, and how its package line and its import lines follow a renaming. The
lexical parts that several languages share stand here too.
-/

namespace Recast

/-- A stretch of characters, from its first place to the one behind it. -/
abbrev Span := Nat × Nat

/-- `spans` and `restructure` have no answer for code in which a parser finds lines that it does
not have, or cuts a character in two. -/
structure Target where
  name : Text
  extension : Text
  symbols : Option Symbols := none
  issues : Text → List Issue
  mainType? : Text → Option Text
  space : Path → Text → Option Text → Text
  output : Text → Text → Text
  spans : Text → Option (List Span)
  restructure : Text → Option Entry → NameIndex → Option Text

namespace Target

def typeWords : List Text := ["class", "struct", "interface", "enum", "record", "trait"]

def isNameStart (c : Char) : Bool := c.isAlpha || c = '_'

/-- What stands behind the blanks of a text that begins with at least one. -/
def behindBlanks? : Text → Option Text
  | [] => none
  | c :: r => if Text.isBlank c then some (Text.trimLeft r) else none

/-- The name that a text begins with. -/
def leadingName? (s : Text) : Option Text :=
  if s.head?.any isNameStart then some (s.takeWhile Text.isAsciiWord) else none

/-- The name behind the word that a text begins with. -/
def nameBehind? (s word : Text) : Option Text :=
  ((Text.after? word s).bind behindBlanks?).bind leadingName?

def firstTypeFrom (insideWord : Bool) : Text → Option Text
  | [] => none
  | c :: r =>
    match if insideWord then none else typeWords.findSome? (nameBehind? (c :: r)) with
    | some name => some name
    | none => firstTypeFrom (Text.isWord c) r

/-- The name behind the first word that declares a type. -/
def firstType? (code : Text) : Option Text := firstTypeFrom false code

def spansFrom (holds : Text → Bool) (place : Nat) : List Text → List Span
  | [] => []
  | line :: rest =>
    let more := spansFrom holds (place + line.length) rest
    if holds line then (place, place + (Text.dropEnding line).length) :: more else more

/-- The lines with a property, without their endings. -/
def lineSpans (holds : Text → Bool) (code : Text) : List Span := spansFrom holds 0 (Text.lines code)

def filled (parts : List Text) : List Text := parts.filter fun p => !p.isEmpty

/-- The base package and the directories of a file, joined by points. -/
def packageOf (source : Path) (package : Option Text) : Text :=
  let base := match package with
    | some p => filled (Text.pieces '.' p)
    | none => []
  Text.join ['.'] (filled (base ++ source.parent.allParts.map Naming.segment))

/-- A file named like its type, in a directory for every part of its namespace. -/
def typeFile (extension space name : Text) : Text :=
  (Path.ofParts (filled (Text.pieces '.' space) ++ [name ++ extension])).toText

end Target

end Recast
