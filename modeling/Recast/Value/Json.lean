import Recast.Value.Basic

/-!
JSON texts. The reader refuses everything that the grammar does not have; of two entries of one
name the later counts. The printer puts every entry on a line of its own, two blanks deeper than
what it belongs to.
-/

namespace Recast.Json

/-- What becomes of a whole number beyond 64 bits. -/
inductive Wide where
  | kept
  | rounded
  deriving DecidableEq

def skip (s : Text) : Text := s.dropWhile fun c => c = ' ' || c = '\t' || c = '\n' || c = '\r'

def hex4? (a b c d : Char) : Option Nat :=
  if [a, b, c, d].all Numeral.isHex then some (Numeral.baseValue 16 [a, b, c, d]) else none

def escaped? (c : Char) : Option Char :=
  match c with
  | '"' => some '"'
  | '\\' => some '\\'
  | '/' => some '/'
  | 'b' => some (Char.ofNat 8)
  | 'f' => some (Char.ofNat 12)
  | 'n' => some '\n'
  | 'r' => some '\r'
  | 't' => some '\t'
  | _ => none

/-- The rest of a string behind its opening quote, and what follows the closing one. -/
def string? : Text → Option (Text × Text)
  | [] => none
  | '"' :: r => some ([], r)
  | '\\' :: 'u' :: a :: b :: c :: d :: '\\' :: 'u' :: e :: f :: g :: h :: r =>
    match hex4? a b c d with
    | none => none
    | some high =>
      if 0xD800 ≤ high && high < 0xDC00 then
        match hex4? e f g h with
        | some low =>
          if 0xDC00 ≤ low && low < 0xE000 then
            let n := 0x10000 + (high - 0xD800) * 0x400 + (low - 0xDC00)
            (string? r).map fun p => (Char.ofNat n :: p.1, p.2)
          else none
        | none => none
      else if 0xDC00 ≤ high && high < 0xE000 then none
      else (string? ('\\' :: 'u' :: e :: f :: g :: h :: r)).map fun p => (Char.ofNat high :: p.1, p.2)
  | '\\' :: 'u' :: a :: b :: c :: d :: r =>
    match hex4? a b c d with
    | some n =>
      if 0xD800 ≤ n && n < 0xE000 then none
      else (string? r).map fun p => (Char.ofNat n :: p.1, p.2)
    | none => none
  | '\\' :: e :: r =>
    match escaped? e with
    | some c => (string? r).map fun p => (c :: p.1, p.2)
    | none => none
  | c :: r => if c = '\\' || c.toNat < 32 then none else (string? r).map fun p => (c :: p.1, p.2)

def within64 (n : Int) : Bool := -Int.pow 2 63 ≤ n && n < Int.pow 2 64

def number? (wide : Wide) (s : Text) : Option (Value × Text) :=
  let (negative, body) : Bool × Text := match s with
    | '-' :: r => (true, r)
    | r => (false, r)
  let (front, r) := Fraction.digits body
  if front.isEmpty || (1 < front.length && front.head? = some '0') then none
  else
    let (hasPoint, back, r) : Bool × Text × Text := match r with
      | '.' :: r => let (back, r) := Fraction.digits r; (true, back, r)
      | r => (false, [], r)
    if hasPoint && back.isEmpty then none
    else
      let hasExponent := r.head? = some 'e' || r.head? = some 'E'
      match Fraction.exponent? r with
      | none => none
      | some (e, rest) =>
        let n := if negative then -(Numeral.value front : Int) else Numeral.value front
        if !hasPoint && !hasExponent && (wide = .kept || within64 n) then some (.int n, rest)
        else
          let x := Fraction.ofDecimal negative (front ++ back) (e - back.length)
          if (Fraction.binary? x).isNone then none else some (.float x, rest)

mutual

/-- Each step uses a character or goes one level down, so `fuel` may be twice the length. -/
def value? (wide : Wide) : Nat → Text → Option (Value × Text)
  | 0, _ => none
  | fuel + 1, s =>
    match s with
    | '"' :: r => (string? r).map fun p => (.text p.1, p.2)
    | '[' :: r =>
      match skip r with
      | ']' :: r => some (.list [], r)
      | r => (items? wide fuel r).map fun p => (.list p.1, p.2)
    | '{' :: r =>
      match skip r with
      | '}' :: r => some (.dict [], r)
      | r => (entries? wide fuel [] r).map fun p => (.dict p.1, p.2)
    | r =>
      match Text.after? "null" r with
      | some r => some (.null, r)
      | none => match Text.after? "true" r with
        | some r => some (.bool true, r)
        | none => match Text.after? "false" r with
          | some r => some (.bool false, r)
          | none => number? wide r

def items? (wide : Wide) : Nat → Text → Option (List Value × Text)
  | 0, _ => none
  | fuel + 1, s =>
    match value? wide fuel (skip s) with
    | none => none
    | some (v, r) =>
      match skip r with
      | ']' :: r => some ([v], r)
      | ',' :: r => (items? wide fuel r).map fun p => (v :: p.1, p.2)
      | _ => none

def entries? (wide : Wide) : Nat → List (Text × Value) → Text → Option (List (Text × Value) × Text)
  | 0, _, _ => none
  | fuel + 1, seen, s =>
    match skip s with
    | '"' :: r =>
      match string? r with
      | none => none
      | some (name, r) =>
        match skip r with
        | ':' :: r =>
          match value? wide fuel (skip r) with
          | none => none
          | some (v, r) =>
            let seen := Value.insert seen name v
            match skip r with
            | '}' :: r => some (seen, r)
            | ',' :: r => entries? wide fuel seen r
            | _ => none
        | _ => none
    | _ => none

end

def read? (wide : Wide) (s : Text) : Option Value :=
  match value? wide (2 * s.length + 2) (skip s) with
  | some (v, r) => if (skip r).isEmpty then some v else none
  | none => none

def stringChar (c : Char) : Text :=
  match c with
  | '"' => "\\\""
  | '\\' => "\\\\"
  | '\n' => "\\n"
  | '\r' => "\\r"
  | '\t' => "\\t"
  | c =>
    if c.toNat = 8 then "\\b"
    else if c.toNat = 12 then "\\f"
    else if c.toNat < 32 then "\\u" ++ Numeral.hex 4 c.toNat
    else [c]

def string (s : Text) : Text := "\"" ++ s.flatMap stringChar ++ "\""

def margin (depth : Nat) : Text := '\n' :: List.replicate (2 * depth) ' '

mutual

def print (depth : Nat) : Value → Text
  | .null => "null"
  | .bool true => "true"
  | .bool false => "false"
  | .int n => Numeral.ofInt n
  | .float x => Fraction.toText .json x
  | .text s => string s
  | .stamp s => string s
  | .list [] => "[]"
  | .list (v :: vs) => "[" ++ printItems (depth + 1) (v :: vs) ++ margin depth ++ "]"
  | .dict [] => "\x7b\x7d"
  | .dict (e :: es) => "\x7b" ++ printEntries (depth + 1) (e :: es) ++ margin depth ++ "\x7d"

def printItems (depth : Nat) : List Value → Text
  | [] => []
  | [v] => margin depth ++ print depth v
  | v :: vs => margin depth ++ print depth v ++ "," ++ printItems depth vs

def printEntries (depth : Nat) : List (Text × Value) → Text
  | [] => []
  | [(name, v)] => margin depth ++ string name ++ ": " ++ print depth v
  | (name, v) :: es => margin depth ++ string name ++ ": " ++ print depth v ++ "," ++ printEntries depth es

end

mutual

/-- Every whole number in a value fits into 64 bits. -/
def fits : Value → Bool
  | .int n => within64 n
  | .list items => fitsItems items
  | .dict entries => fitsEntries entries
  | _ => true

def fitsItems : List Value → Bool
  | [] => true
  | v :: vs => fits v && fitsItems vs

def fitsEntries : List (Text × Value) → Bool
  | [] => true
  | (_, v) :: es => fits v && fitsEntries es

end

def render (v : Value) : Text := print 0 v

end Recast.Json
