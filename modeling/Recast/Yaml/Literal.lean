import Recast.Yaml.Cursor

/-!
Kinds of nodes. A plain text is a number, a truth value, a date or nothing if it is written like
one; a quoted text is always a text.
-/

namespace Recast.Yaml

inductive Kind where
  | null
  | truth
  | whole
  | fraction
  | stamp
  | text
  | merge
  | equals
  | bytes
  | items
  | pairs
  | orderedPairs
  | pairItems
  | nameSet
  | unknown
  deriving DecidableEq

namespace Literal

def isSign (c : Char) : Bool := c = '-' || c = '+'

def unsigned (s : Text) : Text :=
  match s with
  | c :: r => if isSign c then r else s
  | [] => []

def isFiller (c : Char) : Bool := c.isDigit || c = '_'

/-- A digit, then digits and low lines. -/
def isDigits : Text → Bool
  | c :: r => c.isDigit && r.all isFiller
  | [] => false

/-- One digit, or two below sixty. -/
def isSixtieth : Text → Bool
  | [c] => c.isDigit
  | [t, c] => '0' ≤ t && t ≤ '5' && c.isDigit
  | _ => false

/-- Parts between colons, each but the first a sixtieth of the one before. -/
def isSexagesimal (s : Text) : Bool :=
  match Text.pieces ':' s with
  | first :: second :: more => isDigits first && (second :: more).all isSixtieth
  | _ => false

def isWhole (s : Text) : Bool :=
  match unsigned s with
  | ['0'] => true
  | '0' :: 'b' :: r => !r.isEmpty && r.all fun c => c = '0' || c = '1' || c = '_'
  | '0' :: 'x' :: r => !r.isEmpty && r.all fun c => Numeral.isHex c || c = '_'
  | '0' :: r => !r.isEmpty && r.all fun c => ('0' ≤ c && c ≤ '7') || c = '_'
  | s => isDigits s || isSexagesimal s

/-- An exponent with its sign, or nothing. -/
def isExponent : Text → Bool
  | [] => true
  | e :: g :: r => (e = 'e' || e = 'E') && isSign g && !r.isEmpty && r.all Char.isDigit
  | _ => false

def isFraction (s : Text) : Bool :=
  let body := unsigned s
  let front := body.takeWhile (· ≠ '.')
  match body.drop front.length with
  | [] => false
  | _ :: r =>
    let places := r.takeWhile isFiller
    let behind := r.drop places.length
    if front.isEmpty then
      ["inf", "Inf", "INF"].any (fun w => r = w.toList) ||
        (s = body && (isDigits places && isExponent behind ||
          ["nan", "NaN", "NAN"].any fun w => r = w.toList))
    else if isDigits front then isExponent behind
    else isSexagesimal front && behind.isEmpty

def isTruth (s : Text) : Bool :=
  ["yes", "Yes", "YES", "no", "No", "NO", "true", "True", "TRUE", "false", "False", "FALSE", "on",
    "On", "ON", "off", "Off", "OFF"].any fun w => s = w.toList

def isNull (s : Text) : Bool := ["~", "null", "Null", "NULL", ""].any fun w => s = w.toList

/-- Exactly `low` to `high` digits, and what follows them. -/
def digits? (low high : Nat) (s : Text) : Option (Nat × Text) :=
  let w := (s.takeWhile Char.isDigit).take high
  if low ≤ w.length then some (Numeral.value w, s.drop w.length) else none

def mark? (c : Char) : Text → Option Text
  | a :: r => if a = c then some r else none
  | [] => none

/-- The difference of a place from standard time, in minutes. -/
inductive Zone where
  | none
  | standard
  | minutes (n : Int)

/-- A day, and a time on it. -/
structure Moment where
  year : Nat
  month : Nat
  day : Nat
  time : Option (Nat × Nat × Nat × Text × Zone)

def zone? (s : Text) : Option Zone :=
  match s.dropWhile fun c => c = ' ' || c = '\t' with
  | [] => if s.isEmpty then some .none else Option.none
  | ['Z'] => some .standard
  | c :: r => do
    guard (isSign c)
    let (hours, r) ← digits? 1 2 r
    let minutes ← match r with
      | [] => pure 0
      | r => do
        let (m, r) ← digits? 2 2 (← mark? ':' r)
        guard r.isEmpty
        pure m
    let n : Int := hours * 60 + minutes
    return .minutes (if c = '-' then -n else n)

def moment? (s : Text) : Option Moment := do
  let (year, r) ← digits? 4 4 s
  let (month, r) ← digits? 1 2 (← mark? '-' r)
  let (day, r) ← digits? 1 2 (← mark? '-' r)
  match r with
  | [] => return ⟨year, month, day, none⟩
  | c :: _ =>
    let r ← if c = 'T' || c = 't' then some (r.drop 1)
      else if c = ' ' || c = '\t' then some (r.dropWhile fun a => a = ' ' || a = '\t') else none
    let (hour, r) ← digits? 1 2 r
    let (minute, r) ← digits? 2 2 (← mark? ':' r)
    let (second, r) ← digits? 2 2 (← mark? ':' r)
    let (places, r) : Text × Text := match r with
      | '.' :: r => (r.takeWhile Char.isDigit, r.dropWhile Char.isDigit)
      | r => ([], r)
    let zone ← zone? r
    return ⟨year, month, day, some (hour, minute, second, places, zone)⟩

/-- A day alone is written with two digits for month and day. -/
def isStamp (s : Text) : Bool :=
  match moment? s with
  | some m => m.time.isSome || s.length = 10
  | none => false

end Literal

namespace Kind

open Literal

/-- The kind of a plain text. -/
def ofPlain (s : Text) : Kind :=
  if isTruth s then .truth
  else if isFraction s then .fraction
  else if isWhole s then .whole
  else if s = ['<', '<'] then .merge
  else if isNull s then .null
  else if isStamp s then .stamp
  else if s = ['='] then .equals
  else .text

def names : List (String × Kind) :=
  [("null", .null), ("bool", .truth), ("int", .whole), ("float", .fraction), ("timestamp", .stamp),
    ("str", .text), ("merge", .merge), ("value", .equals), ("binary", .bytes), ("seq", .items),
    ("map", .pairs), ("omap", .orderedPairs), ("pairs", .pairItems), ("set", .nameSet)]

/-- The kind that a tag names. -/
def ofTag (t : Text) : Kind :=
  match Text.after? "tag:yaml.org,2002:" t with
  | some w => ((names.find? fun n => n.1.toList = w).map (·.2)).getD .unknown
  | none => .unknown

end Kind

end Recast.Yaml
