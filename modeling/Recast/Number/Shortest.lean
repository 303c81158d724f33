import Recast.Number.Numeral

/-!
Binary fractions in decimal notation, with the fewest digits that read back. A finite number is
`mantissa * 2 ^ exponent`; the decimals nearer to it than to its neighbours form an interval, and
the coarsest decimal grid with a point in that interval gives the digits.
-/

namespace Recast

/-- A number `mantissa * 2 ^ exponent`, its neighbour below half as far if `edge` holds. -/
structure Binary where
  mantissa : Nat
  exponent : Int
  edge : Bool

namespace Binary

/-- `a * 2 ^ e` as a quotient of natural numbers. -/
def quotient (base a : Nat) (e : Int) : Nat × Nat :=
  if 0 ≤ e then (a * base.pow e.toNat, 1) else (a, base.pow (-e).toNat)

/-- The exponent of the first decimal digit of a quotient that is not zero. -/
def leading (num den : Nat) : Int :=
  if den ≤ num then ((Numeral.ofNat (num / den)).length : Int) - 1
  else -((List.range 400).find? fun j => decide (den ≤ num * Nat.pow 10 (j + 1))).elim 0 fun j => (j : Int) + 1

/-- The point next to the number on the grid of multiples of `10 ^ k`, if it reads back. -/
def gridPoint? (b : Binary) (k : Int) : Option Nat :=
  let unit := quotient 2 1 (b.exponent - 2)
  let grid := quotient 10 1 k
  let scale (a : Nat) := a * unit.1 * grid.2
  let point (c : Nat) := c * grid.1 * unit.2
  let value := scale (4 * b.mantissa)
  let low := scale (4 * b.mantissa - if b.edge then 1 else 2)
  let high := scale (4 * b.mantissa + 2)
  let even := b.mantissa % 2 = 0
  let inside (c : Nat) := if even then low ≤ point c && point c ≤ high else low < point c && point c < high
  let below := value / (grid.1 * unit.2)
  let above := below + 1
  match inside below && 0 < below, inside above with
  | true, true =>
    let down := value - point below
    let up := point above - value
    some (if down < up || (down = up && below % 2 = 0) then below else above)
  | true, false => some below
  | false, true => some above
  | false, false => none

/-- Digits and the place of the point: `0.digits * 10 ^ point`. -/
def shortest (b : Binary) : Text × Int :=
  let q := quotient 2 b.mantissa b.exponent
  let top := leading q.1 q.2
  let found := (List.range 17).findSome? fun (n : Nat) =>
    let k := top - (n : Int)
    (gridPoint? b k).map fun c => (c, k)
  let (c, k) := found.getD (b.mantissa, b.exponent)
  let digits := Numeral.ofNat c
  (Text.dropEndWhile (· = '0') digits, digits.length + k)

end Binary

/-- How digits and a point become a numeral: which places of the point are written out, the least
number of digits in an exponent, and the words for what is not finite. -/
structure NumeralStyle where
  lowest : Int
  highest : Int
  exponentDigits : Nat
  signed : Bool
  infinity : Text
  undefined : Text

namespace NumeralStyle

/-- Small and large numbers have an exponent of at least two digits with a sign. -/
def plain : NumeralStyle := ⟨-3, 16, 2, true, "inf", "nan"⟩

/-- JSON has no word for what is not finite and writes `null`. -/
def json : NumeralStyle := ⟨-4, 16, 1, false, "null", "null"⟩

def exponentText (style : NumeralStyle) (e : Int) : Text :=
  let digits := Numeral.ofNat e.natAbs
  let sign : Text := if e < 0 then "-" else if style.signed then "+" else ""
  sign ++ List.replicate (style.exponentDigits - digits.length) '0' ++ digits

def place (style : NumeralStyle) (digits : Text) (point : Int) : Text :=
  if style.lowest ≤ point && point ≤ style.highest then
    if point ≤ 0 then "0." ++ List.replicate (-point).toNat '0' ++ digits
    else
      let n := point.toNat
      let front := digits.take n
      let back := digits.drop n
      front ++ List.replicate (n - front.length) '0' ++ "." ++ (if back.isEmpty then ['0'] else back)
  else
    let back := digits.drop 1
    digits.take 1 ++ (if back.isEmpty then [] else '.' :: back) ++ "e" ++ style.exponentText (point - 1)

end NumeralStyle

namespace Fraction

/-- The binary form of a float; `none` where it is not finite. -/
def binary? (x : Float) : Option Binary :=
  let bits := x.toBits.toNat
  let exponent : Nat := bits / Nat.pow 2 52 % Nat.pow 2 11
  let fraction : Nat := bits % Nat.pow 2 52
  if exponent = 2047 then none
  else if exponent = 0 then some ⟨fraction, -1074, false⟩
  else some ⟨fraction + Nat.pow 2 52, (exponent : Int) - 1075, fraction = 0 && 1 < exponent⟩

def isNegative (x : Float) : Bool := Nat.pow 2 63 ≤ x.toBits.toNat

def toText (style : NumeralStyle) (x : Float) : Text :=
  match binary? x with
  | none =>
    if x.toBits.toNat % Nat.pow 2 52 ≠ 0 then style.undefined
    else if isNegative x then '-' :: style.infinity else style.infinity
  | some b =>
    let sign : Text := if isNegative x then "-" else ""
    if b.mantissa = 0 then sign ++ "0.0"
    else sign ++ (let d := b.shortest; style.place d.1 d.2)

/-- The whole number that a float without fractional part is. -/
def toInt? (x : Float) : Option Int :=
  match binary? x with
  | none => none
  | some b =>
    let q := Binary.quotient 2 b.mantissa b.exponent
    let whole := Int.ofNat (q.1 / q.2)
    if q.1 % q.2 = 0 then some (if isNegative x then -whole else whole) else none

/-- The float nearest to `digits * 10 ^ e`. -/
def ofDecimal (negative : Bool) (digits : Text) (e : Int) : Float :=
  let m := Numeral.value digits
  let places := (Numeral.ofNat m).length
  let magnitude : Float :=
    if m = 0 then 0
    else if 400 < e + places then 1 / 0
    else if e + places < -400 then 0
    else if e < 0 then Float.ofScientific m true (-e).toNat
    else Float.ofScientific m false e.toNat
  if negative then -magnitude else magnitude

/-- Splits a run of digits off. -/
def digits (s : Text) : Text × Text := s.span Char.isDigit

/-- An exponent `e` with its sign and digits. -/
def exponent? : Text → Option (Int × Text)
  | c :: r =>
    if c = 'e' || c = 'E' then
      let (sign, r) : Int × Text := match r with
        | '-' :: r => (-1, r)
        | '+' :: r => (1, r)
        | r => (1, r)
      let (ds, rest) := digits r
      if ds.isEmpty then none else some (sign * Numeral.value ds, rest)
    else some (0, c :: r)
  | [] => some (0, [])

/-- An optional sign, digits with at most one point, and an optional exponent. -/
def ofText? (s : Text) : Option Float :=
  let (negative, s) : Bool × Text := match s with
    | '-' :: r => (true, r)
    | '+' :: r => (false, r)
    | r => (false, r)
  let (front, r) := digits s
  let (back, r) : Text × Text := match r with
    | '.' :: r => digits r
    | r => ([], r)
  if front.isEmpty && back.isEmpty then none
  else match exponent? r with
    | some (e, []) => some (ofDecimal negative (front ++ back) (e - back.length))
    | _ => none

end Fraction

end Recast
