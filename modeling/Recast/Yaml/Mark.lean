import Recast.Yaml.Cursor
import Recast.Files.Encoding

/-!
The marks around a node: names for it, tags that give its kind, and the directives before a
document.
-/

namespace Recast.Yaml

/-- A tag as it is written: a handle, if there is one, and what follows it. -/
structure WrittenTag where
  handle : Option Text
  suffix : Text

inductive Directive where
  | version (major : Text)
  | handle (handle space : Text)
  | other

namespace Mark

/-- The name behind the sign of an anchor or an alias. -/
def name (c : Cursor) : Except Fault (Text × Cursor) :=
  let c := c.next
  let w := c.rest.takeWhile isWordChar
  let c := c.advance w.length
  if w.isEmpty || !endOr (fun a => isGap a || "?:,]\x7d%@`".toList.contains a) c.peek then
    .error .malformed
  else .ok (w, c)

def isUriChar (c : Char) : Bool := c.isAlphanum || "-;/?:@&=+$,_.!~*'()[]%".toList.contains c

/-- Bytes written as a percent sign and two digits each. -/
def escapedBytes : Nat → Text → Except Fault (List UInt8 × Text)
  | 0, _ => .error .malformed
  | fuel + 1, '%' :: a :: b :: r =>
    if Numeral.isHex a && Numeral.isHex b then
      (escapedBytes fuel r).map fun p => (UInt8.ofNat (Numeral.baseValue 16 [a, b]) :: p.1, p.2)
    else .error .malformed
  | _ + 1, '%' :: _ => .error .malformed
  | _ + 1, s => .ok ([], s)

def uriGo : Nat → Text → Text → Except Fault (Text × Text)
  | 0, _, _ => .error .malformed
  | fuel + 1, done, s =>
    match s with
    | '%' :: _ => do
      let (bytes, r) ← escapedBytes (s.length + 1) s
      match Encoding.strict? bytes with
      | some w => uriGo fuel (done ++ w) r
      | none => .error .malformed
    | a :: r => if isUriChar a then uriGo fuel (done ++ [a]) r else .ok (done, s)
    | [] => .ok (done, s)

def uri (c : Cursor) : Except Fault (Text × Cursor) := do
  let (w, r) ← uriGo (c.rest.length + 1) [] c.rest
  if r.length = c.rest.length then .error .malformed
  else .ok (w, c.advance (c.rest.length - r.length))

/-- One exclamation mark, or a word between two of them. -/
def handle (c : Cursor) : Except Fault (Text × Cursor) :=
  if c.peek ≠ some '!' then .error .malformed
  else if c.peek 1 = some ' ' then .ok (['!'], c.next)
  else
    let w := (c.rest.drop 1).takeWhile isWordChar
    if c.peek (w.length + 1) = some '!' then
      .ok ('!' :: w ++ ['!'], c.advance (w.length + 2))
    else .error .malformed

def tag (c : Cursor) : Except Fault (WrittenTag × Cursor) := do
  let (t, c) ← written
  if endOr isSpaceOrFeed c.peek then .ok (t, c) else .error .malformed
where
  written : Except Fault (WrittenTag × Cursor) := do
    if c.peek 1 = some '<' then
      let (w, c) ← uri (c.advance 2)
      if c.peek = some '>' then .ok (⟨none, w⟩, c.next) else .error .malformed
    else if endOr isGap (c.peek 1) then .ok (⟨none, ['!']⟩, c.next)
    else if ((c.rest.drop 1).takeWhile fun a => !isSpaceOrFeed a).contains '!' then
      let (h, c) ← handle c
      let (w, c) ← uri c
      .ok (⟨some h, w⟩, c)
    else
      let (w, c) ← uri c.next
      .ok (⟨some ['!'], w⟩, c)

def digits (c : Cursor) : Except Fault (Text × Cursor) :=
  let w := c.rest.takeWhile Char.isDigit
  if w.isEmpty then .error .malformed else .ok (w, c.advance w.length)

def ended (c : Cursor) : Except Fault Unit :=
  if endOr isSpaceOrFeed c.peek then .ok () else .error .malformed

def directive (c : Cursor) : Except Fault (Directive × Cursor) := do
  let c := c.next
  let w := c.rest.takeWhile isWordChar
  let c := c.advance w.length
  if w.isEmpty then throw .malformed
  ended c
  if w = "YAML".toList then
    let (major, c) ← digits (c.skipWhile (· = ' '))
    if c.peek ≠ some '.' then throw .malformed
    let (_, c) ← digits c.next
    ended c
    return (.version major, ← c.endLine)
  else if w = "TAG".toList then
    let (h, c) ← handle (c.skipWhile (· = ' '))
    if c.peek ≠ some ' ' then throw .malformed
    let (space, c) ← uri (c.skipWhile (· = ' '))
    ended c
    return (.handle h space, ← c.endLine)
  else return (.other, ← (c.skipWhile fun a => !isFeed a).endLine)

end Mark

end Recast.Yaml
