import Recast.Envelope.Reference
import Recast.Number.Numeral

/-!
Character references in text: numbers behind `&#` and `&#x`, and names. A name without its
semicolon counts if it is one of the old ones, and of several beginnings the longest counts.
`escape` writes a text so that it carries no markup.
-/

namespace Recast.Entity

def image (codes : List Nat) : Text := codes.map Char.ofNat

def lookup? (table : List (String × List Nat)) (name : Text) : Option Text :=
  (table.find? fun e => e.1.toList == name).map fun e => image e.2

def full? (name : Text) : Option Text :=
  match lookup? Reference.basic name with
  | some s => some s
  | none =>
    let word := String.ofList name
    (Reference.named.find? fun e => e.1 == word).map fun e => image e.2

def bare? (name : Text) : Option Text :=
  let word := String.ofList name
  if Reference.bare.any (· == word) then full? name else none

/-- The longest beginning of at least two and at most `n` characters that needs no semicolon, and
what is left of the name behind it. -/
def longestBare? (name : Text) : Nat → Option (Text × Text)
  | 0 | 1 => none
  | n + 2 =>
    match bare? (name.take (n + 2)) with
    | some s => some (s, name.drop (n + 2))
    | none => longestBare? name (n + 1)

def isNameChar (c : Char) : Bool :=
  !(['\t', '\n', '\x0c', ' ', '<', '&', '#', ';'].contains c)

/-- The image of a name, where `closed` says that its semicolon follows. -/
def named (name : Text) (closed : Bool) : Text :=
  let found := if closed then full? name else bare? name
  match found with
  | some s => s
  | none =>
    let tail : Text := if closed then [';'] else []
    match longestBare? name (if closed then name.length else name.length - 1) with
    | some (s, rest) => s ++ rest ++ tail
    | none => '&' :: name ++ tail

def numbered (n : Nat) : Text :=
  match Reference.remapped.find? fun e => e.1 = n with
  | some (_, code) => [Char.ofNat code]
  | none =>
    if (0xD800 ≤ n && n < 0xE000) || 0x10FFFF < n then [Char.ofNat 0xFFFD]
    else if Reference.dropped.any fun r => r.1 ≤ n && n ≤ r.2 then []
    else [Char.ofNat n]

def semicolon (s : Text) : Nat := if s.head? = some ';' then 1 else 0

/-- What a reference behind an ampersand stands for, and how many characters it takes. -/
def reference? : Text → Option (Text × Nat)
  | '#' :: r =>
    match r with
    | [] => none
    | x :: h =>
      if x.isDigit then
        let digits := r.takeWhile Char.isDigit
        some (numbered (Numeral.value digits), 1 + digits.length + semicolon (r.drop digits.length))
      else if x = 'x' || x = 'X' then
        let digits := h.takeWhile Numeral.isHex
        if digits.isEmpty then none
        else some (numbered (Numeral.baseValue 16 digits),
          2 + digits.length + semicolon (h.drop digits.length))
      else none
  | r =>
    let name := (r.takeWhile isNameChar).take 32
    if name.isEmpty then none
    else
      let closed := (r.drop name.length).head? = some ';'
      some (named name closed, name.length + if closed then 1 else 0)

/-- `skip` characters still belong to the reference decoded last. -/
def decodeFrom : Nat → Text → Text
  | _, [] => []
  | skip + 1, _ :: r => decodeFrom skip r
  | 0, c :: r =>
    if c = '&' then
      match reference? r with
      | some (s, used) => s ++ decodeFrom used r
      | none => '&' :: decodeFrom 0 r
    else c :: decodeFrom 0 r

def decode (s : Text) : Text := decodeFrom 0 s

def escapeChar (c : Char) : Text :=
  if c = '&' then "&amp;" else if c = '<' then "&lt;" else if c = '>' then "&gt;" else [c]

def escape (s : Text) : Text := s.flatMap escapeChar

end Recast.Entity
