import Recast.Text.Basic

/-!
Texts as bytes, and texts from bytes. A byte that no character can have, and a character that breaks
off, leave a gap; the bytes read up to a break make one gap together.
-/

namespace Recast.Encoding

/-- The bytes of a text, one to four for a character. -/
def encode (s : Text) : List UInt8 := s.flatMap String.utf8EncodeChar

/-- A character under way: how many bytes it still needs, between which bounds the next of them
lies, and the value so far. -/
structure Begun where
  left : Nat
  low : Nat := 0x80
  high : Nat := 0xBF
  value : Nat

/-- What a byte begins: a character of one byte, a longer one, or nothing. -/
inductive Lead where
  | whole (c : Char)
  | begun (b : Begun)
  | gap

def lead (b : Nat) : Lead :=
  if b < 0x80 then .whole (Char.ofNat b)
  else if b < 0xC2 then .gap
  else if b < 0xE0 then .begun { left := 1, value := b - 0xC0 }
  else if b = 0xE0 then .begun { left := 2, low := 0xA0, value := 0 }
  else if b = 0xED then .begun { left := 2, high := 0x9F, value := 0xD }
  else if b < 0xF0 then .begun { left := 2, value := b - 0xE0 }
  else if b = 0xF0 then .begun { left := 3, low := 0x90, value := 0 }
  else if b < 0xF4 then .begun { left := 3, value := b - 0xF0 }
  else if b = 0xF4 then .begun { left := 3, high := 0x8F, value := 4 }
  else .gap

/-- The characters of a text, with nothing for every gap. -/
def decodeFrom : Option Begun → List UInt8 → List (Option Char)
  | none, [] => []
  | some _, [] => [none]
  | none, b :: r =>
    match lead b.toNat with
    | .whole c => some c :: decodeFrom none r
    | .begun n => decodeFrom (some n) r
    | .gap => none :: decodeFrom none r
  | some n, b :: r =>
    if n.low ≤ b.toNat && b.toNat ≤ n.high then
      let value := n.value * 64 + (b.toNat - 0x80)
      if n.left ≤ 1 then some (Char.ofNat value) :: decodeFrom none r
      else decodeFrom (some { left := n.left - 1, value := value }) r
    else
      none :: match lead b.toNat with
        | .whole c => some c :: decodeFrom none r
        | .begun n => decodeFrom (some n) r
        | .gap => none :: decodeFrom none r

def decode (bytes : List UInt8) : List (Option Char) := decodeFrom none bytes

/-- The characters of bytes, whatever gaps there are between them. -/
def readable (bytes : List UInt8) : Text := (decode bytes).filterMap id

/-- The text of bytes without a gap. -/
def strict? (bytes : List UInt8) : Option Text := (decode bytes).mapM id

/-- The text of bytes, with the replacement character in every gap. -/
def lossy (bytes : List UInt8) : Text := (decode bytes).map fun c => c.getD (Char.ofNat 0xFFFD)

end Recast.Encoding
