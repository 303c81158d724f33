import Recast.Files.Tree

/-!
Names by a pattern: a star stands for any characters, a question mark for one, and a list in square
brackets for one of its own. `sources` finds the source files below a folder.
-/

namespace Recast

namespace Glob

/-- One element of a pattern; a set is a list of ranges, negated or not. -/
inductive Element where
  | exactly (c : Char)
  | one
  | many
  | set (negated : Bool) (ranges : List (Char × Char))
  deriving DecidableEq

/-- The inside of a pair of brackets cut at the hyphens of its ranges. -/
def chunks (first : Nat) (inside : Text) : List Text :=
  let rec go (held : Text) (wait : Nat) : Text → List Text
    | [] => if held.isEmpty then [] else [held.reverse]
    | c :: r =>
      if c = '-' && wait = 0 then
        if r.isEmpty then [('-' :: held).reverse, []] else held.reverse :: go [] 2 r
      else go (c :: held) (wait - 1) r
  go [] first inside

/-- Joins neighbours whose range would be empty, from the last to the first. -/
def dropEmpty : List Text → List Text
  | [] => []
  | chunk :: rest =>
    match dropEmpty rest with
    | [] => [chunk]
    | next :: more =>
      match chunk.getLast?, next with
      | some high, low :: after =>
        if low < high then (chunk.dropLast ++ after) :: more else chunk :: next :: more
      | _, _ => chunk :: next :: more

def singles (s : Text) : List (Char × Char) := s.map fun c => (c, c)

/-- The characters and ranges of a cut inside; `low` begins a range that the next piece ends. -/
def rangesFrom (low : Option Char) : List Text → List (Char × Char)
  | [] => []
  | chunk :: more =>
    let (front, body) : List (Char × Char) × Text := match low, chunk with
      | some low, high :: r => ([(low, high)], r)
      | _, chunk => ([], chunk)
    if more.isEmpty then front ++ singles body
    else front ++ singles body.dropLast ++ rangesFrom body.getLast? more

/-- The set in a pair of brackets. -/
def bracket (inside : Text) : Element :=
  let negated := inside.head? = some '!'
  let body := if negated then inside.drop 1 else inside
  if !body.contains '-' then .set negated (singles body)
  else .set negated (rangesFrom none (dropEmpty ((chunks 1 body).filter fun c => !c.isEmpty)))

/-- The inside of brackets and what follows them, the text beginning behind the opening one; a
bracket that comes first does not close. -/
def closeBracket? (s : Text) : Option (Text × Text) :=
  let (mark, rest) : Text × Text := match s with
    | '!' :: r => (['!'], r)
    | r => ([], r)
  let (first, rest) : Text × Text := match rest with
    | ']' :: r => ([']'], r)
    | r => ([], r)
  match Text.cut? [']'] rest with
  | some (inside, behind) => some (mark ++ first ++ inside, behind)
  | none => none

/-- The elements of a pattern; each step uses a character, so `fuel` may be the length. -/
def elementsFrom : Nat → Text → List Element
  | 0, _ => []
  | _, [] => []
  | fuel + 1, '*' :: r => .many :: elementsFrom fuel r
  | fuel + 1, '?' :: r => .one :: elementsFrom fuel r
  | fuel + 1, '[' :: r =>
    match closeBracket? r with
    | some (inside, behind) => bracket inside :: elementsFrom fuel behind
    | none => .exactly '[' :: elementsFrom fuel r
  | fuel + 1, c :: r => .exactly c :: elementsFrom fuel r

def elements (pattern : Text) : List Element := elementsFrom pattern.length pattern

def Element.accepts : Element → Char → Bool
  | .exactly d, c => d = c
  | .one, _ => true
  | .many, _ => true
  | .set negated ranges, c => negated != ranges.any fun r => r.1 ≤ c && c ≤ r.2

/-- Some end of the text satisfies a test. -/
def anyTail (p : Text → Bool) : Text → Bool
  | [] => p []
  | c :: r => p (c :: r) || anyTail p r

def covers : List Element → Text → Bool
  | [], s => s.isEmpty
  | .many :: es, s => anyTail (covers es) s
  | e :: es, s =>
    match s with
    | [] => false
    | c :: r => e.accepts c && covers es r

def nameMatches (pattern name : Text) : Bool := covers (elements pattern) name

/-- The names on the way to a file follow a list of patterns; two stars stand for folders. -/
def pathMatches : List Text → Key → Bool
  | [], k => k.isEmpty
  | p :: ps, k =>
    if p = "**".toList then !ps.isEmpty && anyFolder (pathMatches ps) k
    else match k with
      | [] => false
      | name :: rest => nameMatches p name && pathMatches ps rest
where
  anyFolder (p : Key → Bool) : Key → Bool
    | [] => false
    | name :: rest => p (name :: rest) || anyFolder p rest

/-- Two stars make sense as a whole name only. -/
def valid (pattern : Text) : Bool := pattern = "**".toList || !Text.occurs "**" pattern

end Glob

namespace Tree

/-- Order by the names on the way. -/
def keyOrder (a b : Key) : Bool := !b.lex a fun s t => !Text.ordered t s

def matching (t : Tree) (k : Key) (patterns : List Text) : List (Key × Content) :=
  Ordered.sort (fun a b => keyOrder a.1 b.1) ((t.below k).filter fun f => Glob.pathMatches patterns f.1)

/-- The files below a folder that have an extension, with their texts; bytes that are no text do
not stop the reading. None where the extension is no pattern. -/
def sources (t : Tree) (folder : Path) (extension : Text) : Option (List (Text × Text)) :=
  let extension := if extension.head? = some '.' then extension else '.' :: extension
  let pattern := '*' :: extension
  let parts := Path.partsOf pattern
  if !parts.all Glob.valid then none
  else if Text.endsWith "/" pattern then some []
  else some ((t.matching (Key.ofPath folder) ("**".toList :: parts)).map fun (key, content) =>
    (Text.join ['/'] key, Text.plainFeeds content.lossy))

end Tree

end Recast
