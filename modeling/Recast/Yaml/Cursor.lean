import Recast.Number.Numeral

/-!
A place in a settings text: what is still to be read, and the line and column where it begins.
`rest_advance` says that going forward drops characters and changes none.
-/

namespace Recast.Yaml

inductive Fault where
  /-- The text follows no rule of the format. -/
  | malformed
  /-- An escape that names a number beyond the last character. -/
  | noCharacter
  /-- An escape that names a number too large to look at. -/
  | hugeCharacter
  /-- A number or a date that cannot be read. -/
  | noNumber
  /-- A truth value that is none. -/
  | noTruth
  /-- A number without a digit. -/
  | emptyNumber
  /-- A point in time that is none. -/
  | noStamp
  deriving DecidableEq

structure Cursor where
  rest : Text
  line : Nat
  column : Nat
  index : Nat

def isFeed (c : Char) : Bool :=
  c = '\n' || c = '\r' || c.toNat = 133 || c.toNat = 8232 || c.toNat = 8233

def isSpaceOrFeed (c : Char) : Bool := c = ' ' || isFeed c

def isGap (c : Char) : Bool := c = ' ' || c = '\t' || isFeed c

def isWordChar (c : Char) : Bool := c.isAlphanum || c = '-' || c = '_'

/-- What the format admits in a text. -/
def isAdmitted (c : Char) : Bool :=
  let n := c.toNat
  n = 9 || n = 10 || n = 13 || (32 ≤ n && n ≤ 126) || n = 133 || (160 ≤ n && n ≤ 55295) ||
    (57344 ≤ n && n ≤ 65533) || 65536 ≤ n

/-- The end of the text, or a character of the class `p`. -/
def endOr (p : Char → Bool) : Option Char → Bool
  | some c => p c
  | none => true

def isOne (p : Char → Bool) : Option Char → Bool
  | some c => p c
  | none => false

namespace Cursor

def ofText (s : Text) : Cursor := ⟨s, 0, 0, 0⟩

/-- The character `n` places further on. -/
def peek (c : Cursor) (n : Nat := 0) : Option Char := c.rest[n]?

/-- A byte order mark takes no column. -/
def next (c : Cursor) : Cursor :=
  match c.rest with
  | [] => c
  | a :: r =>
    if isFeed a && !(a = '\r' && r.head? = some '\n') then ⟨r, c.line + 1, 0, c.index + 1⟩
    else if a.toNat = 65279 then ⟨r, c.line, c.column, c.index + 1⟩
    else ⟨r, c.line, c.column + 1, c.index + 1⟩

def advance : Nat → Cursor → Cursor
  | 0, c => c
  | n + 1, c => advance n c.next

def skipWhile (p : Char → Bool) (c : Cursor) : Cursor := c.advance (c.rest.takeWhile p).length

/-- A break that is read: its two-character form and its plain forms count as a line feed. -/
def feed? (c : Cursor) : Option (Char × Cursor) :=
  match c.rest with
  | '\r' :: '\n' :: _ => some ('\n', c.advance 2)
  | a :: _ =>
    if a = '\n' || a = '\r' || a.toNat = 133 then some ('\n', c.next)
    else if isFeed a then some (a, c.next)
    else none
  | [] => none

/-- A comment, up to the end of its line. -/
def skipComment (c : Cursor) : Cursor :=
  if c.peek = some '#' then c.skipWhile fun a => !isFeed a else c

/-- Blanks and a comment may stand before the end of a line, and nothing else. -/
def endLine (c : Cursor) : Except Fault Cursor :=
  let c := (c.skipWhile (· = ' ')).skipComment
  match c.feed? with
  | some (_, c) => .ok c
  | none => if c.rest.isEmpty then .ok c else .error .malformed

/-- Three equal marks at the margin that bound a document. -/
def atBound (c : Cursor) : Bool :=
  (Text.startsWith "---" c.rest || Text.startsWith "..." c.rest) && endOr isGap (c.peek 3)

theorem rest_next (c : Cursor) : c.next.rest = c.rest.drop 1 := by
  unfold next
  split
  · rename_i empty
    simp [empty]
  · rename_i held
    split
    · simp [held]
    · split <;> simp [held]

theorem rest_advance (n : Nat) (c : Cursor) : (c.advance n).rest = c.rest.drop n := by
  induction n generalizing c with
  | zero => simp [advance]
  | succ n ih => rw [advance, ih, rest_next, List.drop_drop, Nat.add_comm]

end Cursor

end Recast.Yaml
