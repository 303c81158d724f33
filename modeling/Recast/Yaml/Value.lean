import Recast.Value.Basic
import Recast.Yaml.Node

/-!
The value of a document. Numbers may have low lines between their digits and parts of sixty;
entries that are merged into a mapping come before its own and give way to them. Of the keys of a
mapping only texts are kept.
-/

namespace Recast.Yaml

namespace Literal

def decimal? (s : Text) : Option Nat := if s.length ≤ 4300 then Numeral.toNat? s else none

/-- Digits to a base. -/
def toBase? (base : Nat) (s : Text) : Option Nat :=
  if !s.isEmpty && s.all fun c => (Numeral.hexValue? c).any fun n => decide (n < base) then
    some (Numeral.baseValue base s)
  else none

def magnitude? (s : Text) : Option Nat :=
  match s with
  | ['0'] => some 0
  | '0' :: 'b' :: r => toBase? 2 r
  | '0' :: 'x' :: r => toBase? 16 r
  | '0' :: _ => toBase? 8 s
  | _ => ((Text.pieces ':' s).mapM decimal?).map fun parts => parts.foldl (fun n p => 60 * n + p) 0

def isNegative (s : Text) : Bool := s.head? = some '-'

/-- A number without its low lines and its sign; there has to be something left. -/
def body (s : Text) : Except Fault (Bool × Text) :=
  let s := s.filter (· ≠ '_')
  if s.isEmpty then .error .emptyNumber else .ok (isNegative s, unsigned s)

def whole (s : Text) : Except Fault Int := do
  let (negative, s) ← body s
  if s.isEmpty then throw .emptyNumber
  match magnitude? s with
  | some n => return if negative then -n else n
  | none => throw .noNumber

def decimalFraction? (s : Text) : Option Float :=
  if s = "inf".toList || s = "infinity".toList then some (1 / 0)
  else if s = "nan".toList then some (0 / 0)
  else Fraction.ofText? s

/-- Parts of sixty, summed up from the last one. -/
def sumOfSixtieths : List Float → Float → Float → Float
  | [], _, sum => sum
  | x :: xs, base, sum => sumOfSixtieths xs (base * 60) (sum + x * base)

def fraction (s : Text) : Except Fault Float := do
  let (negative, s) ← body (s.map Char.toLower)
  let sign (x : Float) : Float := if negative then -x else x
  if s = ".inf".toList then return sign (1 / 0)
  else if s = ".nan".toList then return 0 / 0
  else match (Text.pieces ':' s).mapM decimalFraction? with
    | some [x] => return sign x
    | some xs => return sign (sumOfSixtieths xs.reverse 1 0)
    | none => throw .noNumber

def truth (s : Text) : Except Fault Bool :=
  let w := String.ofList (s.map Char.toLower)
  if ["yes", "true", "on"].contains w then .ok true
  else if ["no", "false", "off"].contains w then .ok false
  else .error .noTruth

def isLeap (year : Nat) : Bool := year % 4 = 0 && (year % 100 ≠ 0 || year % 400 = 0)

def daysIn (year month : Nat) : Nat :=
  if month = 2 then (if isLeap year then 29 else 28)
  else if [4, 6, 9, 11].contains month then 30 else 31

def zeroPadded (width n : Nat) : Text :=
  let s := Numeral.ofNat n
  List.replicate (width - s.length) '0' ++ s

def Zone.text : Zone → Text
  | .none => []
  | .standard => "+00:00"
  | .minutes n =>
    (if n < 0 then '-' else '+') :: zeroPadded 2 (n.natAbs / 60) ++ ":" ++ zeroPadded 2 (n.natAbs % 60)

def Zone.valid : Zone → Bool
  | .minutes n => n.natAbs < 24 * 60
  | _ => true

/-- Millionths of a second, further digits being dropped. -/
def millionths (places : Text) : Nat :=
  Numeral.value ((places ++ List.replicate 6 '0').take 6)

def Moment.valid (m : Moment) : Bool :=
  0 < m.year && 0 < m.month && m.month ≤ 12 && 0 < m.day && m.day ≤ daysIn m.year m.month &&
    match m.time with
    | some (hour, minute, second, _, zone) => hour < 24 && minute < 60 && second < 60 && zone.valid
    | none => true

def Moment.text (m : Moment) : Text :=
  zeroPadded 4 m.year ++ "-" ++ zeroPadded 2 m.month ++ "-" ++ zeroPadded 2 m.day ++
    match m.time with
    | some (hour, minute, second, places, zone) =>
      let rest := millionths places
      " " ++ zeroPadded 2 hour ++ ":" ++ zeroPadded 2 minute ++ ":" ++ zeroPadded 2 second ++
        (if rest = 0 then [] else '.' :: zeroPadded 6 rest) ++ zone.text
    | none => []

def stamp (s : Text) : Except Fault Text :=
  match moment? s with
  | some m => if m.valid then .ok m.text else .error .noNumber
  | none => .error .noStamp

/-- The value of a scalar of some kind. -/
def value (kind : Kind) (s : Text) : Except Fault Value :=
  match kind with
  | .null => .ok .null
  | .truth => (truth s).map .bool
  | .whole => (whole s).map .int
  | .fraction => (fraction s).map .float
  | .stamp => (stamp s).map .stamp
  | .text => .ok (.text s)
  | .bytes => .ok (.stamp s)
  | .merge | .equals | .items | .pairs | .orderedPairs | .pairItems | .nameSet | .unknown =>
    .error .malformed

end Literal

namespace Node

def isMerge : Node → Bool
  | .scalar .merge _ => true
  | _ => false

/-- The value of a key: a scalar, and an equals sign stands for itself. -/
def key : Node → Except Fault Value
  | .scalar .equals s => .ok (.text s)
  | .scalar kind s => Literal.value kind s
  | _ => .error .malformed

def textEntries (entries : List (Value × Value)) : List (Text × Value) :=
  entries.foldl (fun es e => match e.1 with
    | .text name => Value.insert es name e.2
    | _ => es) []

mutual

def value : Node → Except Fault Value
  | .scalar kind s => Literal.value kind s
  | .items kind nodes =>
    match kind with
    | .items => (values nodes).map .list
    | .orderedPairs | .pairItems => (singles nodes).map .list
    | _ => .error .malformed
  | .pairs kind entries =>
    match kind with
    | .pairs => (fields entries).map fun f => .dict (textEntries (f.1 ++ f.2))
    | .nameSet => (fields entries).map fun f => .list ((f.1 ++ f.2).map (·.1))
    | _ => .error .malformed

def values : List Node → Except Fault (List Value)
  | [] => .ok []
  | n :: ns => do return (← value n) :: (← values ns)

/-- Mappings of one entry each, as pairs. -/
def singles : List Node → Except Fault (List Value)
  | [] => .ok []
  | .pairs _ [(k, v)] :: ns => do return .list [← value k, ← value v] :: (← singles ns)
  | _ :: _ => .error .malformed

/-- The entries that are merged into a mapping, and its own. -/
def fields : List (Node × Node) → Except Fault (List (Value × Value) × List (Value × Value))
  | [] => .ok ([], [])
  | (k, v) :: es => do
    if k.isMerge then
      let found ← merged v
      let (others, own) ← fields es
      return (found ++ others, own)
    else
      let entry := (← key k, ← value v)
      let (others, own) ← fields es
      return (others, entry :: own)

def merged : Node → Except Fault (List (Value × Value))
  | .pairs _ entries => (fields entries).map fun f => f.1 ++ f.2
  | .items _ nodes => mergedAll nodes
  | .scalar _ _ => .error .malformed

/-- Of several mappings the first one wins, so it comes last. -/
def mergedAll : List Node → Except Fault (List (Value × Value))
  | [] => .ok []
  | .pairs _ entries :: ns => do
    let found ← fields entries
    return (← mergedAll ns) ++ found.1 ++ found.2
  | _ :: _ => .error .malformed

end

end Node

/-- The value of the one document of a text. -/
def read (s : Text) : Except Fault Value := do
  match ← Node.ofText? s with
  | some n => n.value
  | none => return .null

end Recast.Yaml
