import Recast.Text.Word
import Recast.Text.Blank

/-!
Names in the three forms that target languages ask for: capitalised words, lower-case words joined
by low lines, and segments of a dotted name.
-/

namespace Recast.Naming

def isPlain (c : Char) : Bool := c.isAlphanum

def capitalise : Text → Text
  | [] => []
  | c :: r => c.toUpper :: r

/-- The words of a file's name, each with a capital; never empty and never beginning with a
digit. -/
def pascal (name : Text) : Text :=
  let joined := ((Text.fields (fun c => !isPlain c) name).map capitalise).flatten
  match joined with
  | [] => "Unnamed"
  | c :: _ => if c.isDigit then '_' :: joined else joined

/-- A low line where a capital follows a small letter or a digit, and before the last capital of
several that a small letter follows. -/
def separateWords (before : Option Char) : Text → Text
  | [] => []
  | c :: r =>
    let afterSmall := before.any fun b => b.isLower || b.isDigit
    let afterCapital := before.any Char.isUpper && r.head?.any Char.isLower
    let mark : Text := if c.isUpper && (afterSmall || afterCapital) then ['_'] else []
    mark ++ c :: separateWords (some c) r

/-- Runs of other characters than letters, digits and low lines become one low line each. -/
def squeeze (inside : Bool) : Text → Text
  | [] => []
  | c :: r =>
    if Text.isAsciiWord c then c :: squeeze false r
    else if inside then squeeze true r
    else '_' :: squeeze true r

def trimLowLines (s : Text) : Text := Text.dropEndWhile (· = '_') (s.dropWhile (· = '_'))

def snake (name : Text) : Text :=
  let s := (trimLowLines (squeeze false (separateWords none name))).map Char.toLower
  if s.isEmpty then "module" else s

/-- A segment of a dotted name: word characters only, the first of them no digit. -/
def segment (s : Text) : Text :=
  let cleaned := s.map fun c => if Text.isWord c then c else '_'
  match cleaned with
  | [] => []
  | c :: _ => if Text.isAnyDigit c then '_' :: cleaned else cleaned

/-- An ASCII letter or low line, then ASCII letters, digits and low lines. -/
def isIdentifier (s : Text) : Bool :=
  match s with
  | [] => false
  | c :: r => (c.isAlpha || c = '_') && r.all Text.isAsciiWord

end Recast.Naming
