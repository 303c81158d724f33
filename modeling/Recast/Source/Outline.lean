import Recast.Source.Chunk

/-!
The outline of a type: its text with every member body replaced by a marker line, and the bodies
beside it. A body begins on a line that goes from the first level to a deeper one and ends on the
line that comes back.
-/

namespace Recast

structure Outline where
  text : Text
  bodies : List Text
  deriving DecidableEq

namespace Outline

def marker (i : Nat) : Text := "@@BODY_" ++ Numeral.ofNat i ++ "@@"

/-- A line of an outline: one of the type's own, or the marker of a body. -/
inductive Line where
  | own (line : Text)
  | body (index : Nat) (indent : Text)
  deriving DecidableEq

/-- Walks over the lines; `body` holds the lines of an open body from the last to the first, and
`count` says how many bodies were closed. -/
def walk (symbols : Symbols) (depth : Int) (count : Nat) (body : List Text) :
    List Text → List Line × List Text
  | [] => ([], if body.isEmpty then [] else [body.reverse.flatten])
  | line :: rest =>
    let after := depth + Chunk.delta symbols line
    if !body.isEmpty then
      if after ≤ 1 then
        let (lines, bodies) := walk symbols after (count + 1) [] rest
        (lines, (line :: body).reverse.flatten :: bodies)
      else walk symbols after count (line :: body) rest
    else if depth = 1 && 2 ≤ after then
      let (lines, bodies) := walk symbols after count [line] rest
      (.body count (Text.indent line) :: lines, bodies)
    else
      let (lines, bodies) := walk symbols after count [] rest
      (.own line :: lines, bodies)

def Line.text : Line → Text
  | .own line => line
  | .body i indent => indent ++ marker i ++ ['\n']

/-- The number in the first marker that a line holds. -/
def markerIndex? : Text → Option Nat
  | [] => none
  | c :: r =>
    match Text.after? "@@BODY_" (c :: r) with
    | some behind =>
      let digits := behind.takeWhile Text.isDigit
      if !digits.isEmpty && Text.startsWith "@@" (behind.dropWhile Text.isDigit)
      then some (Text.digitsValue digits)
      else markerIndex? r
    | none => markerIndex? r

/-- A line with a marker gets the line ending of the body that it stands for. -/
def fixEnding (bodies : List Text) (line : Text) : Text :=
  match markerIndex? line with
  | some i =>
    match bodies[i]? with
    | some body => Text.dropEnding line ++ Text.feedEnding body
    | none => line
  | none => line

def ofText (symbols : Symbols) (text : Text) : Outline :=
  let (lines, bodies) := walk symbols 0 0 [] (Text.lines text)
  let raw := (lines.map Line.text).flatten
  ⟨((Text.lines raw).map (fixEnding bodies)).flatten, bodies⟩

/-- A marker at the start of a line, with the blanks around it, and its line ending. -/
def markerHere? (i : Nat) (s : Text) : Option (Text × Text) :=
  let isGap (c : Char) := c = ' ' || c = '\t'
  match Text.after? (marker i) (s.dropWhile isGap) with
  | none => none
  | some behind =>
    match behind.dropWhile isGap with
    | '\r' :: '\n' :: rest => some ("\r\n", rest)
    | '\n' :: rest => some ("\n", rest)
    | rest => some ("", rest)

/-- The text before the first line that a marker begins, its ending, and the text behind it. -/
def findMarker? (i : Nat) (lineStart : Bool) : Text → Option (Text × Text × Text)
  | [] => none
  | c :: r =>
    match if lineStart then markerHere? i (c :: r) else none with
    | some (ending, rest) => some ([], ending, rest)
    | none => (findMarker? i (c = '\n') r).map fun (before, found) => (c :: before, found)

/-- A body that does not end with a line feed gets the ending of the marker's line. -/
def withEnding (body ending : Text) : Text :=
  if ending.isEmpty || Text.endsWith "\n" body then body else body ++ ending

/-- Puts bodies in place of their markers; collects the bodies without a marker. -/
def place (index : Nat) (result : Text) : List Text → Text × List Text
  | [] => (result, [])
  | body :: rest =>
    match findMarker? index true result with
    | some (before, ending, behind) =>
      place (index + 1) (before ++ withEnding body ending ++ behind) rest
    | none =>
      let (result, missing) := place (index + 1) result rest
      (result, body :: missing)

def feedClosed (s : Text) : Text := if Text.endsWith "\n" s then s else s ++ ['\n']

/-- Puts bodies before the last closing symbol, on lines of their own. -/
def insertMissing (closing : Text) (result : Text) (missing : List Text) : Text :=
  let block := (missing.map feedClosed).flatten
  match Text.cutLast? closing result with
  | none => (if result.isEmpty then [] else feedClosed result) ++ block
  | some (before, behind) =>
    let line := Text.takeEndWhile (· ≠ '\n') before
    let earlier := Text.dropEndWhile (· ≠ '\n') before
    if Text.blank line then earlier ++ block ++ line ++ closing ++ behind
    else before ++ (if Text.startsWith "\n" block then block else '\n' :: block) ++ closing ++ behind

def reassemble (closing : Text) (text : Text) (bodies : List Text) : Text :=
  let (result, missing) := place 0 text bodies
  if missing.isEmpty then result else insertMissing closing result missing

def rebuild (symbols : Symbols) (outline : Outline) : Text :=
  reassemble symbols.closing outline.text outline.bodies

end Outline

end Recast
