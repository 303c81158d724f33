import Recast.Yaml.Written
import Recast.Yaml.Mark

/-!
The tokens of a settings text. Blocks are bounded by their indentation, so the tokens that begin and
end a block stand for no characters: a block begins where a deeper column is reached and ends where
a line begins further left. A node turns out to be a key only at the colon behind it; the token that
marks a key is then set before the node.
-/

namespace Recast.Yaml

inductive Token where
  | directive (d : Directive)
  | documentStart
  | documentEnd
  | blockItems
  | blockPairs
  | blockEnd
  | openItems
  | closeItems
  | openPairs
  | closePairs
  | comma
  | entry
  | key
  | value
  | alias (name : Text)
  | anchor (name : Text)
  | tag (t : WrittenTag)
  | scalar (text : Text) (plain : Bool)

/-- The place of a node that may turn out to be a key. -/
structure KeyPlace where
  token : Nat
  required : Bool
  line : Nat
  column : Nat
  index : Nat

/-- How far a text is read: the open blocks by their columns, and for each open bracket, and for
what is outside of all of them, the last node there that may be a key. -/
structure Reading where
  cursor : Cursor
  tokens : List Token := []
  indent : Int := -1
  indents : List Int := []
  keyAllowed : Bool := true
  candidate : Option KeyPlace := none
  outer : List (Option KeyPlace) := []

namespace Reading

def inFlow (s : Reading) : Bool := !s.outer.isEmpty

def emit (s : Reading) (t : Token) : Reading := { s with tokens := s.tokens ++ [t] }

def emitAt (s : Reading) (n : Nat) (t : Token) : Reading :=
  { s with tokens := s.tokens.insertIdx n t }

def forward (s : Reading) (n : Nat) : Reading := { s with cursor := s.cursor.advance n }

/-- A key stands on one line and within 1024 characters of its colon. -/
def isStale (c : Cursor) (k : KeyPlace) : Bool := k.line ≠ c.line || 1024 < c.index - k.index

def refresh (c : Cursor) : Option KeyPlace → Except Fault (Option KeyPlace)
  | some k =>
    if isStale c k then (if k.required then .error .malformed else .ok none) else .ok (some k)
  | none => .ok none

def dropStale (s : Reading) : Except Fault Reading := do
  let candidate ← refresh s.cursor s.candidate
  let outer ← s.outer.mapM (refresh s.cursor)
  return { s with candidate := candidate, outer := outer }

/-- The last node is no key; at the head of a line of a block of pairs it has to be one. -/
def dropCandidate (s : Reading) : Except Fault Reading :=
  match s.candidate with
  | some k => if k.required then .error .malformed else .ok { s with candidate := none }
  | none => .ok s

def noteCandidate (s : Reading) : Except Fault Reading :=
  if s.keyAllowed then
    (dropCandidate s).map fun s =>
      let c := s.cursor
      let required := !s.inFlow && s.indent == (c.column : Int)
      let place : KeyPlace := ⟨s.tokens.length, required, c.line, c.column, c.index⟩
      { s with candidate := some place }
  else .ok s

/-- Ends the blocks that are indented further than `column`. -/
def unwind (column : Int) (s : Reading) : Reading :=
  if s.inFlow then s else go s.indents s
where
  go : List Int → Reading → Reading
    | [], s => s
    | i :: is, s =>
      if column < s.indent then go is ({ s with indent := i, indents := is }.emit .blockEnd) else s

/-- Begins a block at a column, if it is indented further than the block around it. -/
def beginBlock (column : Nat) (place : Nat) (t : Token) (s : Reading) : Reading :=
  if s.indent < (column : Int) then
    { s with indent := column, indents := s.indent :: s.indents }.emitAt place t
  else s

def skipToToken : Nat → Bool → Cursor → Bool → Cursor × Bool
  | 0, _, c, allowed => (c, allowed)
  | fuel + 1, inFlow, c, allowed =>
    let c := (c.skipWhile (· = ' ')).skipComment
    match c.feed? with
    | some (_, c) => skipToToken fuel inFlow c (allowed || !inFlow)
    | none => (c, allowed)

/-- Forward to the next token, over blanks, comments and breaks. -/
def toToken (s : Reading) : Reading :=
  let c := if s.cursor.index = 0 && s.cursor.peek = some (Char.ofNat 65279) then s.cursor.next else s.cursor
  let (c, allowed) := skipToToken (c.rest.length + 1) s.inFlow c s.keyAllowed
  { s with cursor := c, keyAllowed := allowed }

/-- A token that bounds a document or precedes one. -/
def bound (s : Reading) : Except Fault Reading :=
  (dropCandidate (s.unwind (-1))).map fun s => { s with keyAllowed := false }

def openBracket (s : Reading) (t : Token) : Except Fault Reading := do
  let s ← s.noteCandidate
  return { s with candidate := none, outer := s.candidate :: s.outer, keyAllowed := true
    }.emit t |>.forward 1

def closeBracket (s : Reading) (t : Token) : Except Fault Reading := do
  let s ← s.dropCandidate
  match s.outer with
  | [] => throw .malformed
  | k :: ks => return { s with candidate := k, outer := ks, keyAllowed := false }.emit t |>.forward 1

/-- The sign before an item or an explicit key. -/
def sign (s : Reading) (block : Token) (t : Token) (keyAllowed : Bool) : Except Fault Reading := do
  if !s.inFlow && !s.keyAllowed then throw .malformed
  let s := if s.inFlow then s else s.beginBlock s.cursor.column s.tokens.length block
  let s ← s.dropCandidate
  return { s with keyAllowed := keyAllowed }.emit t |>.forward 1

def colon (s : Reading) : Except Fault Reading :=
  match s.candidate with
  | some k =>
    let s := { s with candidate := none, keyAllowed := false }.emitAt k.token .key
    let s := if s.inFlow then s else s.beginBlock k.column k.token .blockPairs
    .ok (s.emit .value |>.forward 1)
  | none => s.sign .blockPairs .value (!s.inFlow)

/-- A node that may be a key. -/
def node (s : Reading) (read : Cursor → Except Fault (Token × Cursor)) : Except Fault Reading := do
  let s ← s.noteCandidate
  let (t, c) ← read s.cursor
  return { s with cursor := c, keyAllowed := false }.emit t

def block (s : Reading) (fold : Bool) : Except Fault Reading := do
  let s ← s.dropCandidate
  let (w, c) ← Block.read fold s.indent s.cursor
  return { s with cursor := c, keyAllowed := true }.emit (.scalar w false)

def plain (s : Reading) : Except Fault Reading := do
  let s ← s.noteCandidate
  let (w, ended, c) := Plain.read s.inFlow (s.indent + 1) s.cursor
  return { s with cursor := c, keyAllowed := ended }.emit (.scalar w true)

/-- The next token; nothing at the end of the text. -/
def step (s : Reading) : Except Fault (Option Reading) := do
  let s ← s.toToken.dropStale
  let s := s.unwind s.cursor.column
  let c := s.cursor
  let gapBehind := endOr isGap (c.peek 1)
  match c.peek with
  | none => return none
  | some a =>
    if c.column = 0 && a = '%' then
      let s ← s.bound
      let (d, c) ← Mark.directive c
      return some ({ s with cursor := c }.emit (.directive d))
    else if c.column = 0 && c.atBound then
      let s ← s.bound
      return some (s.emit (if a = '-' then .documentStart else .documentEnd) |>.forward 3)
    else if a = '[' then return some (← s.openBracket .openItems)
    else if a = '\x7b' then return some (← s.openBracket .openPairs)
    else if a = ']' then return some (← s.closeBracket .closeItems)
    else if a = '\x7d' then return some (← s.closeBracket .closePairs)
    else if a = ',' then
      let s ← s.dropCandidate
      return some ({ s with keyAllowed := true }.emit .comma |>.forward 1)
    else if a = '-' && gapBehind then return some (← s.sign .blockItems .entry true)
    else if a = '?' && (s.inFlow || gapBehind) then return some (← s.sign .blockPairs .key (!s.inFlow))
    else if a = ':' && (s.inFlow || gapBehind) then return some (← s.colon)
    else if a = '*' then return some (← s.node fun c => (Mark.name c).map fun p => (.alias p.1, p.2))
    else if a = '&' then return some (← s.node fun c => (Mark.name c).map fun p => (.anchor p.1, p.2))
    else if a = '!' then return some (← s.node fun c => (Mark.tag c).map fun p => (.tag p.1, p.2))
    else if a = '|' && !s.inFlow then return some (← s.block false)
    else if a = '>' && !s.inFlow then return some (← s.block true)
    else if a = '\'' || a = '"' then
      return some (← s.node fun c => (Quoted.read a c).map fun p => (.scalar p.1 false, p.2))
    else if Plain.begins s.inFlow c then return some (← s.plain)
    else throw .malformed

def run : Nat → Reading → Except Fault (List Token)
  | 0, _ => .error .malformed
  | fuel + 1, s => do
    match ← s.step with
    | some s => run fuel s
    | none => return (← (s.toToken.unwind (-1)).dropStale >>= dropCandidate).tokens

end Reading

namespace Token

def ofText (s : Text) : Except Fault (List Token) :=
  if s.all isAdmitted then Reading.run (s.length + 1) { cursor := .ofText s } else .error .malformed

end Token

end Recast.Yaml
