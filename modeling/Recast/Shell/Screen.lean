import Recast.Text.Line

/-!
Lines on a screen of limited width. A message is marked up: a word in square brackets sets a style
and is not shown, and a slash before it ends the style. Lines that are too long are cut between
words, and words that fit on no line at the edge.
-/

namespace Recast.Shell

namespace Markup

def beginsTag (c : Char) : Bool := ('a' ≤ c && c ≤ 'z') || c = '#' || c = '/' || c = '@'

/-- The inside of a tag at the head of a text, and what follows it. -/
def tag? (s : Text) : Option (Text × Text) :=
  match s with
  | '[' :: c :: r =>
    if beginsTag c then
      let more := r.takeWhile fun a => a ≠ '[' && a ≠ ']'
      match r.drop more.length with
      | ']' :: behind => some (c :: more, behind)
      | _ => none
    else none
  | _ => none

def styleName (s : Text) : Text := (Text.trim (s.takeWhile (· ≠ '='))).map Char.toLower

/-- The open styles after a tag; a style that is not open cannot be ended. -/
def turn? (opened : List Text) (tag : Text) : Option (List Text) :=
  match tag with
  | '/' :: name =>
    let name := styleName name
    if name.isEmpty then (if opened.isEmpty then none else some (opened.drop 1))
    else if opened.contains name then some (opened.erase name) else none
  | name => some (styleName name :: opened)

/-- A run of characters outside of tags; a backslash before a bracket is not shown. -/
def unescaped (run : Text) : Text := Text.substitute ['\\', '['] ['['] run

def go : Nat → List Text → Text → Text → Text → Option Text
  | 0, _, _, _, _ => none
  | fuel + 1, opened, shown, run, s =>
    let slashes := s.takeWhile (· = '\\')
    let behind := s.drop slashes.length
    match tag? behind with
    | some (tag, rest) =>
      let shown := shown ++ unescaped run ++ List.replicate (slashes.length / 2) '\\'
      if slashes.length % 2 = 1 then go fuel opened (shown ++ '[' :: tag ++ [']']) [] rest
      else (turn? opened tag).bind fun opened => go fuel opened shown [] rest
    | none =>
      match behind with
      | [] => some (shown ++ unescaped (run ++ slashes))
      | c :: rest => go fuel opened shown (run ++ slashes ++ [c]) rest

/-- The characters of a message that are shown; nothing if a style ends that is not open. -/
def plain? (s : Text) : Option Text := go (s.length + 1) [] [] [] s

end Markup

namespace Screen

/-- Lines are 200 columns wide, and a frame takes two of them on each side. -/
def width : Nat := 200

def frameWidth : Nat := 196

/-- The words of a line with the blanks behind them; those at the head belong to the first. -/
def words (s : Text) : List Text := group (s.takeWhile Text.isBlank) (s.dropWhile Text.isBlank)
where
  group (before : Text) : Text → List Text
    | [] => []
    | c :: r =>
      match group [] r with
      | [] => [before ++ c :: r]
      | w :: ws =>
        if Text.isBlank c && !(w.head?.map Text.isBlank).getD false then (before ++ [c]) :: w :: ws
        else (before ++ c :: w) :: ws

/-- Pieces of a given length, the last one shorter. -/
def chop (size : Nat) : Nat → Text → List Text
  | 0, s => [s]
  | fuel + 1, s => if s.length ≤ size then [s] else s.take size :: chop size fuel (s.drop size)

/-- Sets words on lines; `line` is the line that is being filled. -/
def fill (width : Nat) : Text → List Text → List Text
  | line, [] => [line]
  | line, w :: ws =>
    let size := (Text.trimRight w).length
    if line.length + size ≤ width then fill width (line ++ w) ws
    else if width < size then
      let pieces := chop width w.length w
      let full := pieces.dropLast
      (if line.isEmpty then full else line :: full) ++ fill width (pieces.getLast?.getD []) ws
    else line :: fill width w ws

def wrap (width : Nat) (line : Text) : List Text := fill width [] (words line)

def isShown (c : Char) : Bool := !(c.toNat = 7 || c.toNat = 8 || (11 ≤ c.toNat && c.toNat ≤ 13))

def isDrawing (c : Char) : Bool := 0x2500 ≤ c.toNat && c.toNat ≤ 0x257F

/-- A line without frames, its blanks closed up. -/
def tidy (line : Text) : Text :=
  Text.join [' '] (Text.fields Text.isBlank (line.filter fun c => !isDrawing c))

/-- The lines in which a text stands on the screen; empty ones are left out. -/
def linesOf (width : Nat) (s : Text) : List Text :=
  let shown := s.filter isShown
  let lines := (Text.pieces '\n' shown).flatMap (wrap width)
  ((lines.flatMap Text.bareLines).map tidy).filter fun l => !l.isEmpty

end Screen

end Recast.Shell
