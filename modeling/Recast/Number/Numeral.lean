import Recast.Text.Blank

/-!
Whole numbers in decimal notation. `ofNat_injective` says that different numbers are written
differently.
-/

namespace Recast.Numeral

def digit (n : Nat) : Char := Char.ofNat (48 + n)

def digitValue (c : Char) : Nat := c.toNat - 48

def ofNat (n : Nat) : Text :=
  if n < 10 then [digit n] else ofNat (n / 10) ++ [digit (n % 10)]

def ofInt : Int → Text
  | .ofNat n => ofNat n
  | .negSucc n => '-' :: ofNat (n + 1)

/-- Shorter numerals are filled up on the left with blanks. -/
def padded (width n : Nat) : Text :=
  let s := ofNat n
  List.replicate (width - s.length) ' ' ++ s

/-- The number that a run of ASCII digits stands for. -/
def value (s : Text) : Nat := s.foldl (fun n c => 10 * n + digitValue c) 0

def toNat? (s : Text) : Option Nat :=
  if !s.isEmpty && s.all Char.isDigit then some (value s) else none

/-- A hexadecimal digit of either case. -/
def hexValue? (c : Char) : Option Nat :=
  if c.isDigit then some (c.toNat - 48)
  else if 'a' ≤ c && c ≤ 'f' then some (c.toNat - 87)
  else if 'A' ≤ c && c ≤ 'F' then some (c.toNat - 55)
  else none

def isHex (c : Char) : Bool := (hexValue? c).isSome

/-- The number that digits to a base up to sixteen stand for. -/
def baseValue (base : Nat) (s : Text) : Nat :=
  s.foldl (fun n c => base * n + (hexValue? c).getD 0) 0

def hexDigit (n : Nat) : Char := if n < 10 then digit n else Char.ofNat (87 + n)

/-- Exactly `width` lower-case hexadecimal digits. -/
def hex : Nat → Nat → Text
  | 0, _ => []
  | width + 1, n => hex width (n / 16) ++ [hexDigit (n % 16)]

theorem digitValue_digit {n : Nat} (h : n < 10) : digitValue (digit n) = n := by
  have valid : (48 + n).isValidChar := by
    left
    omega
  have same : (Char.ofNat (48 + n)).toNat = 48 + n := by
    rw [Char.ofNat, dif_pos valid]
    rfl
  rw [digitValue, digit, same]
  omega

theorem value_append_digit (s : Text) (c : Char) :
    value (s ++ [c]) = 10 * value s + digitValue c := by
  simp [value]

theorem value_ofNat (n : Nat) : value (ofNat n) = n := by
  fun_induction ofNat n with
  | case1 n small => simp [value, digitValue_digit small]
  | case2 n large ih =>
    rw [value_append_digit, ih, digitValue_digit (Nat.mod_lt n (by omega))]
    omega

theorem ofNat_injective {m n : Nat} (h : ofNat m = ofNat n) : m = n := by
  rw [← value_ofNat m, ← value_ofNat n, h]

theorem ofNat_ne_nil (n : Nat) : ofNat n ≠ [] := by
  unfold ofNat
  split <;> simp

end Recast.Numeral
