import Recast.Yaml.Cursor

/-!
The three ways to write a text: plain, in quotes, and as a block of lines. Breaks inside a plain or
quoted text are folded: one becomes a blank, and of several all but the first stay.
-/

namespace Recast.Yaml

/-- A break is dropped where others follow it, and a blank in its place where none does. -/
def folded (first : Char) (others : Text) : Text :=
  if first ≠ '\n' then first :: others else if others.isEmpty then [' '] else others

namespace Plain

/-- Characters that a plain text may not begin with. -/
def isMark (c : Char) : Bool := "-?:,[]\x7b\x7d#&*!|>'\"%@`".toList.contains c

def isFlowMark (c : Char) : Bool := ",[]\x7b\x7d".toList.contains c

def begins (inFlow : Bool) (c : Cursor) : Bool :=
  match c.rest with
  | [] => false
  | a :: r =>
    !(isGap a || isMark a) ||
      (!endOr isGap r.head? && (a = '-' || (!inFlow && (a = '?' || a = ':'))))

/-- The characters up to a gap or a mark that ends a plain text. -/
def word (inFlow : Bool) : Text → Text
  | [] => []
  | a :: r =>
    if isGap a || (a = ':' && endOr (fun b => isGap b || (inFlow && isFlowMark b)) r.head?) ||
        (inFlow && (isFlowMark a || a = '?')) then []
    else a :: word inFlow r

/-- The further breaks after the first one, unless a document ends there. -/
def breaks : Nat → Text → Cursor → Option Text × Cursor
  | 0, _, c => (none, c)
  | fuel + 1, found, c =>
    if c.peek = some ' ' then breaks fuel found c.next
    else match c.feed? with
      | some (b, c) => if c.atBound then (none, c) else breaks fuel (found ++ [b]) c
      | none => (some found, c)

/-- What stands between two words; nothing if the text ends there. The truth value tells whether
a line ended. -/
def gap (c : Cursor) : Text × Bool × Cursor :=
  let blanks := c.rest.takeWhile (· = ' ')
  let c := c.advance blanks.length
  match c.feed? with
  | some (first, c) =>
    if c.atBound then ([], true, c)
    else match breaks (c.rest.length + 1) [] c with
      | (some others, c) => (folded first others, true, c)
      | (none, c) => ([], true, c)
  | none => (blanks, false, c)

def go (inFlow : Bool) (indent : Int) : Nat → Text → Text → Bool → Cursor → Text × Bool × Cursor
  | 0, done, _, ended, c => (done, ended, c)
  | fuel + 1, done, before, ended, c =>
    let w := word inFlow c.rest
    if c.peek = some '#' || w.isEmpty then (done, ended, c)
    else
      let done := done ++ before ++ w
      let (between, ended, c) := gap (c.advance w.length)
      if between.isEmpty || (!inFlow && (c.column : Int) < indent) then (done, ended, c)
      else go inFlow indent fuel done between ended c

/-- The text, whether its last line has ended, and what follows. -/
def read (inFlow : Bool) (indent : Int) (c : Cursor) : Text × Bool × Cursor :=
  go inFlow indent (c.rest.length + 1) [] [] false c

end Plain

namespace Quoted

def escape? (c : Char) : Option Char :=
  match c with
  | '0' => some '\x00'
  | 'a' => some '\x07'
  | 'b' => some '\x08'
  | 't' | '\t' => some '\t'
  | 'n' => some '\n'
  | 'v' => some '\x0b'
  | 'f' => some '\x0c'
  | 'r' => some '\r'
  | 'e' => some '\x1b'
  | ' ' | '"' | '\\' | '/' => some c
  | 'N' => some (Char.ofNat 133)
  | '_' => some (Char.ofNat 160)
  | 'L' => some (Char.ofNat 8232)
  | 'P' => some (Char.ofNat 8233)
  | _ => none

def hexLength? (c : Char) : Option Nat :=
  match c with
  | 'x' => some 2
  | 'u' => some 4
  | 'U' => some 8
  | _ => none

/-- The breaks after a first one; a document may not end there. -/
def breaks : Nat → Text → Cursor → Except Fault (Text × Cursor)
  | 0, _, _ => .error .malformed
  | fuel + 1, found, c =>
    if c.atBound then .error .malformed
    else
      let c := c.skipWhile fun a => a = ' ' || a = '\t'
      match c.feed? with
      | some (b, c) => breaks fuel (found ++ [b]) c
      | none => .ok (found, c)

def hexCharacter (digits : Text) : Except Fault Char :=
  let n := Numeral.baseValue 16 digits
  if Nat.pow 2 31 ≤ n then .error .hugeCharacter
  else if 0x110000 ≤ n then .error .noCharacter
  else if Nat.isValidChar n then .ok (Char.ofNat n)
  else .error .malformed

/-- The text that an escape stands for; the cursor is behind the backslash. -/
def escaped (c : Cursor) : Except Fault (Text × Cursor) :=
  match c.feed? with
  | some (_, c) => breaks (c.rest.length + 1) [] c
  | none =>
    match c.rest with
    | [] => .error .malformed
    | a :: r =>
      match escape? a, hexLength? a with
      | some b, _ => .ok ([b], c.next)
      | none, some n =>
        let digits := r.take n
        if digits.length = n && digits.all Numeral.isHex then
          (hexCharacter digits).map fun b => ([b], c.advance (n + 1))
        else .error .malformed
      | none, none => .error .malformed

def go (quote : Char) : Nat → Text → Cursor → Except Fault (Text × Cursor)
  | 0, _, _ => .error .malformed
  | fuel + 1, done, c => do
    match c.rest with
    | [] => .error .malformed
    | a :: r =>
      if a = quote then
        if quote = '\'' && r.head? = some '\'' then go quote fuel (done ++ [a]) (c.advance 2)
        else .ok (done, c.next)
      else if a = '\\' && quote = '"' then
        let (s, c) ← escaped c.next
        go quote fuel (done ++ s) c
      else if isGap a then
        let blanks := c.rest.takeWhile fun b => b = ' ' || b = '\t'
        let c := c.advance blanks.length
        match c.feed? with
        | some (first, c) =>
          let (others, c) ← breaks (c.rest.length + 1) [] c
          go quote fuel (done ++ folded first others) c
        | none => go quote fuel (done ++ blanks) c
      else go quote fuel (done ++ [a]) c.next

def read (quote : Char) (c : Cursor) : Except Fault (Text × Cursor) :=
  go quote (c.rest.length + 1) [] c.next

end Quoted

namespace Block

/-- What becomes of the breaks at the end of a block. -/
inductive Ending where
  | strip
  | clip
  | keep
  deriving DecidableEq

/-- The signs after the mark of a block: how it ends, and how far it is indented. -/
def signs (c : Cursor) : Except Fault (Ending × Option Nat × Cursor) :=
  let ending? (c : Cursor) : Option Ending := match c.peek with
    | some '+' => some .keep
    | some '-' => some .strip
    | _ => none
  let step? (c : Cursor) : Option Nat := c.peek.bind fun a =>
    if a.isDigit then some (Numeral.digitValue a) else none
  let finish (e : Ending) (n : Option Nat) (c : Cursor) : Except Fault (Ending × Option Nat × Cursor) :=
    if n = some 0 || !endOr isSpaceOrFeed c.peek then .error .malformed else .ok (e, n, c)
  match ending? c, step? c with
  | some e, _ =>
    match step? c.next with
    | some n => finish e (some n) c.next.next
    | none => finish e none c.next
  | none, some n =>
    match ending? c.next with
    | some e => finish e (some n) c.next.next
    | none => finish .clip (some n) c.next
  | none, none => finish .clip none c

/-- Empty lines at the head of a block, and the widest of the indents there. -/
def head : Nat → Text → Nat → Cursor → Text × Nat × Cursor
  | 0, found, widest, c => (found, widest, c)
  | fuel + 1, found, widest, c =>
    if c.peek = some ' ' then head fuel found (max widest c.next.column) c.next
    else match c.feed? with
      | some (b, c) => head fuel (found ++ [b]) widest c
      | none => (found, widest, c)

/-- The blanks up to a column. -/
def skipIndent (indent : Nat) (c : Cursor) : Cursor :=
  c.advance (min (indent - c.column) (c.rest.takeWhile (· = ' ')).length)

def breaks (indent : Nat) : Nat → Text → Cursor → Text × Cursor
  | 0, found, c => (found, c)
  | fuel + 1, found, c =>
    let c := skipIndent indent c
    match c.feed? with
    | some (b, c) => breaks indent fuel (found ++ [b]) c
    | none => (found, c)

/-- The lines of a block. In a folded block the break between two lines that begin with no blank
becomes a blank, or nothing if empty lines follow. -/
def go (fold : Bool) (ending : Ending) (indent : Nat) : Nat → Text → Text → Text → Cursor → Text × Cursor
  | 0, done, _, _, c => (done, c)
  | fuel + 1, done, lastBreak, empties, c =>
    let startsBlank := isOne (fun a => a = ' ' || a = '\t') c.peek
    if c.column = indent && !c.rest.isEmpty then
      let line := c.rest.takeWhile fun a => !isFeed a
      let done := done ++ empties ++ line
      let c := c.advance line.length
      let (lineBreak, c) : Text × Cursor := match c.feed? with
        | some (b, c) => ([b], c)
        | none => ([], c)
      let (empties, c) := breaks indent (c.rest.length + 1) [] c
      if c.column = indent && !c.rest.isEmpty then
        let nextBlank := isOne (fun a => a = ' ' || a = '\t') c.peek
        if fold && lineBreak = ['\n'] && !startsBlank && !nextBlank then
          go fold ending indent fuel (done ++ if empties.isEmpty then [' '] else []) lineBreak empties c
        else go fold ending indent fuel (done ++ lineBreak) lineBreak empties c
      else close done lineBreak empties c
    else close done lastBreak empties c
where
  close (done lastBreak empties : Text) (c : Cursor) : Text × Cursor :=
    match ending with
    | .strip => (done, c)
    | .clip => (done ++ lastBreak, c)
    | .keep => (done ++ lastBreak ++ empties, c)

/-- A block below a node at the column `indent`; the cursor is at its mark. -/
def read (fold : Bool) (indent : Int) (c : Cursor) : Except Fault (Text × Cursor) := do
  let (ending, step, c) ← signs c.next
  let c ← c.endLine
  let least := max 1 (indent + 1).toNat
  let fuel := c.rest.length + 1
  match step with
  | some n =>
    let column := least + n - 1
    let (empties, c) := breaks column fuel [] c
    return go fold ending column fuel [] [] empties c
  | none =>
    let (empties, widest, c) := head fuel [] 0 c
    return go fold ending (max least widest) fuel [] [] empties c

end Block

end Recast.Yaml
