import Recast.Value.Basic

/-!
Checking values against what a record asks for. A check either gives what was read or lists every
fault, each with its place; independent checks are combined so that no fault hides another.
-/

namespace Recast

/-- A step from a record to the part that is at fault. -/
inductive Step where
  | field (name : Text)
  | index (i : Nat)
  deriving DecidableEq

inductive FaultKind where
  | missing
  | textType
  | textTooShort
  | wholeType
  | wholeParsing
  | wholeSize
  | wholeFromFraction
  | notFinite
  | numberType
  | numberParsing
  | truthType
  | truthParsing
  | notAbove (bound : Int)
  | below (bound : Int)
  | above (bound : Int)
  | choice
  | role
  | pathType
  | listType
  | dictType
  | patternTooLarge
  | refused (why : Text)
  deriving DecidableEq

namespace FaultKind

def name : FaultKind → Text
  | .missing => "missing"
  | .textType => "string_type"
  | .textTooShort => "string_too_short"
  | .wholeType => "int_type"
  | .wholeParsing => "int_parsing"
  | .wholeSize => "int_parsing_size"
  | .wholeFromFraction => "int_from_float"
  | .notFinite => "finite_number"
  | .numberType => "float_type"
  | .numberParsing => "float_parsing"
  | .truthType => "bool_type"
  | .truthParsing => "bool_parsing"
  | .notAbove _ => "greater_than"
  | .below _ => "greater_than_equal"
  | .above _ => "less_than_equal"
  | .choice => "enum"
  | .role => "literal_error"
  | .pathType => "path_type"
  | .listType => "list_type"
  | .dictType => "dict_type"
  | .patternTooLarge => "overflow"
  | .refused _ => "value_error"

def message? : FaultKind → Option Text
  | .refused why => some ("Value error, " ++ why)
  | _ => none

end FaultKind

structure Fault where
  place : List Step
  kind : FaultKind
  deriving DecidableEq

inductive Checked (α : Type) where
  | ok (a : α)
  | faults (fs : List Fault)

namespace Checked

variable {α β : Type}

def map (f : α → β) : Checked α → Checked β
  | .ok a => .ok (f a)
  | .faults fs => .faults fs

/-- Both sides are looked at, and their faults are listed in order. -/
def both (f : Checked (α → β)) (a : Unit → Checked α) : Checked β :=
  match f, a () with
  | .ok f, .ok a => .ok (f a)
  | .ok _, .faults fs => .faults fs
  | .faults fs, .ok _ => .faults fs
  | .faults fs, .faults gs => .faults (fs ++ gs)

instance : Functor Checked := ⟨map, fun a => map fun _ => a⟩
instance : Pure Checked := ⟨.ok⟩
instance : Seq Checked := ⟨both⟩

def fault (kind : FaultKind) : Checked α := .faults [⟨[], kind⟩]

/-- The faults as seen from one level further out. -/
def inside (step : Step) : Checked α → Checked α
  | .ok a => .ok a
  | .faults fs => .faults (fs.map fun f => { f with place := step :: f.place })

def andThen (a : Checked α) (f : α → Checked β) : Checked β :=
  match a with
  | .ok a => f a
  | .faults fs => .faults fs

def toExcept : Checked α → Except (List Fault) α
  | .ok a => .ok a
  | .faults fs => .error fs

end Checked

abbrev Check (α : Type) := Value → Checked α

namespace Check

variable {α β : Type}

def text : Check Text
  | .text s => .ok s
  | _ => .fault .textType

def nonEmptyText (v : Value) : Checked Text :=
  (text v).andThen fun s => if s.isEmpty then .fault .textTooShort else .ok s

/-- White space around numbers; the information separators of ASCII do not count. -/
def isGap (c : Char) : Bool := Text.isBlank c && !(28 ≤ c.toNat && c.toNat ≤ 31)

def trimGaps (s : Text) : Text := Text.dropEndWhile isGap (s.dropWhile isGap)

/-- Digits without the single low lines between them. -/
def dropLowLines? (s : Text) : Option Text :=
  if s.head? = some '_' || s.getLast? = some '_' || Text.occurs "__" s then none
  else some (s.filter (· ≠ '_'))

def wholeOf? (s : Text) : Option Int :=
  let (negative, body) : Bool × Text := match trimGaps s with
    | '+' :: r => (false, r)
    | '-' :: r => (true, r)
    | r => (false, r)
  let front := body.takeWhile (· ≠ '.')
  let zeros := (body.drop front.length).drop 1
  if !zeros.all (· = '0') then none
  else
    match (dropLowLines? front).bind Numeral.toNat? with
    | some n => some (if negative then -n else n)
    | none => none

def whole : Check Int
  | .int n => .ok n
  | .bool b => .ok (if b then 1 else 0)
  | .float x =>
    if (Fraction.binary? x).isNone then .fault .notFinite
    else match Fraction.toInt? x with
      | some n => if -Int.pow 2 63 ≤ n && n < Int.pow 2 63 then .ok n else .fault .wholeSize
      | none => .fault .wholeFromFraction
  | .text s =>
    match wholeOf? s with
    | some n => if (Numeral.ofInt n).length ≤ 4300 then .ok n else .fault .wholeSize
    | none => .fault .wholeParsing
  | _ => .fault .wholeType

def positive (v : Value) : Checked Nat :=
  (whole v).andThen fun n => if 0 < n then .ok n.toNat else .fault (.notAbove 0)

def atLeast (bound : Nat) (v : Value) : Checked Nat :=
  (whole v).andThen fun n => if (bound : Int) ≤ n then .ok n.toNat else .fault (.below bound)

def word (s : Text) : Text := s.map Char.toLower

def fractionOf? (s : Text) : Option Float :=
  let plain (s : Text) : Option Float :=
    let (negative, body) : Bool × Text := match s with
      | '+' :: r => (false, r)
      | '-' :: r => (true, r)
      | r => (false, r)
    let lower := String.ofList (word body)
    if lower = "inf" || lower = "infinity" then some (if negative then -(1 / 0) else 1 / 0)
    else if lower = "nan" then some (0 / 0)
    else Fraction.ofText? s
  let s := trimGaps s
  (plain s).orElse fun _ => (dropLowLines? s).bind plain

def number : Check Float
  | .int n =>
    let x := Fraction.ofDecimal (n < 0) (Numeral.ofNat n.natAbs) 0
    if (Fraction.binary? x).isNone then .fault .numberType else .ok x
  | .bool b => .ok (if b then 1 else 0)
  | .float x => .ok x
  | .text s =>
    match fractionOf? s with
    | some x => .ok x
    | none => .fault .numberParsing
  | _ => .fault .numberType

/-- The upper bound is looked at first. -/
def numberWithin (low : Nat) (high : Option Nat) (v : Value) : Checked Float :=
  (number v).andThen fun x =>
    match high with
    | some h => if x ≤ Float.ofNat h then lower x else .fault (.above h)
    | none => lower x
where
  lower (x : Float) : Checked Float := if Float.ofNat low ≤ x then .ok x else .fault (.below low)

def truthOf? (s : Text) : Option Bool :=
  let w := String.ofList (word s)
  if ["0", "off", "f", "false", "n", "no"].contains w then some false
  else if ["1", "on", "t", "true", "y", "yes"].contains w then some true
  else none

def truth : Check Bool
  | .bool b => .ok b
  | .text s =>
    match truthOf? s with
    | some b => .ok b
    | none => .fault .truthParsing
  | .int n => ofWhole n
  | .float x =>
    match Fraction.toInt? x with
    | some n => ofWhole n
    | none => .fault .truthType
  | _ => .fault .truthType
where
  ofWhole (n : Int) : Checked Bool :=
    if n = 0 then .ok false
    else if n = 1 then .ok true
    else if -Int.pow 2 63 ≤ n && n < Int.pow 2 63 then .fault .truthParsing
    else .fault .truthType

def choiceOf (of? : Text → Option α) : Check α
  | .text s =>
    match of? s with
    | some a => .ok a
    | none => .fault .choice
  | _ => .fault .choice

def optional (check : Check α) : Check (Option α)
  | .null => .ok none
  | v => (check v).map some

def items (check : Check α) : Nat → List Value → Checked (List α)
  | _, [] => .ok []
  | i, v :: vs => Checked.both (((check v).inside (.index i)).map List.cons) fun _ => items check (i + 1) vs

def list (check : Check α) : Check (List α)
  | .list vs => items check 0 vs
  | _ => .fault .listType

def entries (check : Check α) : List (Text × Value) → Checked (List (Text × α))
  | [] => .ok []
  | (name, v) :: es =>
    Checked.both (((check v).inside (.field name)).map fun a => List.cons (name, a))
      fun _ => entries check es

def dict (check : Check α) : Check (List (Text × α))
  | .dict es => entries check es
  | _ => .fault .dictType

/-- A field that a record must have. -/
def required (name : Text) (check : Check α) (v : Value) : Checked α :=
  match v.get? name with
  | some field => (check field).inside (.field name)
  | none => .faults [⟨[.field name], .missing⟩]

/-- A field that a record may leave out. -/
def field (name : Text) (default : α) (check : Check α) (v : Value) : Checked α :=
  match v.get? name with
  | some field => (check field).inside (.field name)
  | none => .ok default

end Check

end Recast
