import Recast.Value.Json
import Recast.Yaml.Literal

/-!
Values as a settings text: one entry or item on a line, nested ones two columns further in. A text
is written plainly if that reads back as a text, and in quotes otherwise.
-/

namespace Recast.Yaml

/-- Signs that end a plain text or turn it into something else: a colon before a blank, a comment,
and marks at its head. -/
def hidesMark : Text → Bool
  | ':' :: r => endOr isGap r.head? || hidesMark r
  | ' ' :: '#' :: _ => true
  | _ :: r => hidesMark r
  | [] => false

def isPlainText (s : Text) : Bool :=
  match s with
  | [] => false
  | c :: r =>
    !(isGap c || "#,[]\x7b\x7d&*!|>'\"%@`".toList.contains c) && !isOne isGap s.getLast? &&
      !("?:-".toList.contains c && endOr isGap r.head?) && !hidesMark s &&
      !(Text.startsWith "---" s || Text.startsWith "..." s) && Kind.ofPlain s = .text

def scalarText (s : Text) : Text :=
  if !s.all (fun c => isAdmitted c && !isFeed c && c ≠ '\t') then Json.string s
  else if isPlainText s then s
  else '\'' :: Text.substitute ['\''] ['\'', '\''] s ++ ['\'']

def fractionText (x : Float) : Text :=
  let s := Fraction.toText .plain x
  match Text.cut? ['e'] s with
  | some (front, back) => if front.contains '.' then s else front ++ ".0e" ++ back
  | none =>
    if s = "inf".toList then ".inf"
    else if s = "-inf".toList then "-.inf"
    else if s = "nan".toList then ".nan"
    else s

def margin (column : Nat) : Text := List.replicate column ' '

mutual

/-- What stands behind a key that stands at `column`, or behind the sign of an item. -/
def behind (column : Nat) : Value → Text
  | .null => " null\n"
  | .bool b => if b then " true\n".toList else " false\n".toList
  | .int n => ' ' :: Numeral.ofInt n ++ ['\n']
  | .float x => ' ' :: fractionText x ++ ['\n']
  | .text s => ' ' :: scalarText s ++ ['\n']
  | .stamp s => ' ' :: s ++ ['\n']
  | .list [] => " []\n"
  | .dict [] => " \x7b\x7d\n"
  | .list vs => '\n' :: itemLines column vs
  | .dict es => '\n' :: entryLines (column + 2) es

def itemLines (column : Nat) : List Value → Text
  | [] => []
  | v :: vs => margin column ++ "-" ++ behind (column + 2) v ++ itemLines column vs

def entryLines (column : Nat) : List (Text × Value) → Text
  | [] => []
  | (name, v) :: es => margin column ++ scalarText name ++ ":" ++ behind column v ++ entryLines column es

end

/-- A settings text with the entries of a mapping. -/
def render (v : Value) : Text := entryLines 0 v.entries

end Recast.Yaml
