import Recast.Number.Shortest
import Recast.Text.Printable

/-!
Values of settings and checkpoint files before they are checked: numbers, texts, lists and
mappings from names. `shown` is the literal form of a value in a message, `display` the form in
which it stands for itself as a text.
-/

namespace Recast

inductive Value where
  | null
  | bool (b : Bool)
  | int (n : Int)
  | float (x : Float)
  | text (s : Text)
  | stamp (s : Text)
  | list (items : List Value)
  | dict (entries : List (Text × Value))
  deriving BEq, Inhabited

namespace Value

/-- A mapping from names that are known beforehand. -/
def record (entries : List (String × Value)) : Value :=
  .dict (entries.map fun e => (e.1.toList, e.2))

def lookup? (entries : List (Text × Value)) (name : Text) : Option Value :=
  (entries.find? fun e => e.1 == name).map (·.2)

def get? (v : Value) (name : Text) : Option Value :=
  match v with
  | .dict entries => lookup? entries name
  | _ => none

/-- A later entry takes the place of an earlier one of the same name. -/
def insert (entries : List (Text × Value)) (name : Text) (v : Value) : List (Text × Value) :=
  if entries.any fun e => e.1 == name then
    entries.map fun e => if e.1 == name then (name, v) else e
  else entries ++ [(name, v)]

def insertNew (entries : List (Text × Value)) (name : Text) (v : Value) : List (Text × Value) :=
  if entries.any fun e => e.1 == name then entries else entries ++ [(name, v)]

def text? : Value → Option Text
  | .text s => some s
  | _ => none

/-- The value under a name, or nothing. -/
def field (v : Value) (name : String) : Value := (v.get? name.toList).getD .null

def textAt? (v : Value) (name : String) : Option Text := (v.get? name.toList).bind text?

def textAt (v : Value) (name : String) : Text := (v.textAt? name).getD []

def items : Value → List Value
  | .list vs => vs
  | _ => []

def entries : Value → List (Text × Value)
  | .dict es => es
  | _ => []

def itemsAt (v : Value) (name : String) : List Value := (v.field name).items

def textsAt (v : Value) (name : String) : List Text := (v.itemsAt name).map fun i => i.text?.getD []

def whole : Value → Int
  | .int n => n
  | .bool b => if b then 1 else 0
  | .float x => (Fraction.toInt? x).getD 0
  | _ => 0

def wholeAt (v : Value) (name : String) (default : Int) : Int :=
  ((v.get? name.toList).map whole).getD default

def sizeAt (v : Value) (name : String) : Nat := (v.wholeAt name 0).toNat

/-- Something, or nothing at all. -/
def optional {α : Type} (f : α → Value) : Option α → Value
  | some a => f a
  | none => .null

def texts (ts : List Text) : Value := .list (ts.map .text)

/-- Zero, nothing and the empty count as false. -/
def truthy : Value → Bool
  | .null => false
  | .bool b => b
  | .int n => n ≠ 0
  | .float x => !(x == 0)
  | .text s => !s.isEmpty
  | .stamp _ => true
  | .list items => !items.isEmpty
  | .dict entries => !entries.isEmpty

def quoted (s : Text) : Text :=
  let quote := if s.contains '\'' && !s.contains '"' then '"' else '\''
  let one (c : Char) : Text :=
    if c = quote || c = '\\' then ['\\', c]
    else if c = '\n' then "\\n"
    else if c = '\r' then "\\r"
    else if c = '\t' then "\\t"
    else if Text.isPrintable c then [c]
    else if c.toNat < 256 then "\\x" ++ Numeral.hex 2 c.toNat
    else if c.toNat < 65536 then "\\u" ++ Numeral.hex 4 c.toNat
    else "\\U" ++ Numeral.hex 8 c.toNat
  quote :: s.flatMap one ++ [quote]

mutual

def shown : Value → Text
  | .null => "None"
  | .bool true => "True"
  | .bool false => "False"
  | .int n => Numeral.ofInt n
  | .float x => Fraction.toText .plain x
  | .text s => quoted s
  | .stamp s => s
  | .list items => "[" ++ Text.join ", " (shownItems items) ++ "]"
  | .dict entries => "\x7b" ++ Text.join ", " (shownEntries entries) ++ "\x7d"

def shownItems : List Value → List Text
  | [] => []
  | v :: vs => shown v :: shownItems vs

def shownEntries : List (Text × Value) → List Text
  | [] => []
  | (name, v) :: es => (quoted name ++ ": " ++ shown v) :: shownEntries es

end

def display : Value → Text
  | .text s => s
  | v => shown v

def truthAt (v : Value) (name : String) : Bool := (v.field name).truthy

/-- Pairs of texts: a mapping, or a list of lists. -/
def textPairs : Value → List (Text × Text)
  | .dict es => es.map fun e => (e.1, e.2.text?.getD [])
  | v => v.items.map fun p => match p.items.map fun i => i.text?.getD [] with
    | a :: b :: _ => (a, b)
    | _ => ([], [])

/-- Equality of a value with a whole number: also of a float, and of a truth value with 0 or 1. -/
def isNumber (n : Int) : Value → Bool
  | .int m => m == n
  | .bool b => (if b then 1 else 0) == n
  | .float x => Fraction.toInt? x == some n
  | _ => false

end Value

end Recast
