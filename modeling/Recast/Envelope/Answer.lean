import Recast.Envelope.Entity
import Recast.Settings.Basic

/-!
Answers of a generation service. The code of an answer stands between two tags; an answer that was
cut off has only the first, and the answer to a request to go on may have only the second.
-/

namespace Recast

/-- What a service returns. Only a text can carry code. -/
inductive Reply where
  | text (s : Text)
  | other (v : Value)
  deriving Inhabited

namespace Fence

def mark : Text := ['`', '`', '`']

def isWordChar (c : Char) : Bool := Text.isWord c || ['+', '#', '.', '-'].contains c

/-- What stands behind the opening mark of a fence, its language word and the end of that line. -/
def body (s : Text) : Text :=
  match (s.dropWhile isWordChar).dropWhile fun c => c = ' ' || c = '\t' with
  | '\n' :: r => r
  | r => r

def dropFeed (s : Text) : Text := if Text.endsWith "\n" s then s.dropLast else s

/-- The text inside a markdown fence; a text without one as it is. -/
def strip (s : Text) : Text :=
  match Text.after? mark (Text.trim s) with
  | none => s
  | some behind =>
    let inner := body behind
    if Text.endsWith mark inner then dropFeed (inner.take (inner.length - mark.length))
    else (behind.dropWhile (· ≠ '\n')).drop 1

end Fence

namespace Verbatim

def opening : Text := "<![CDATA["

def closing : Text := "]]>"

/-- A payload without the wrapper that marks it as verbatim, and without a fence. -/
def unwrap (payload : Text) : Text :=
  match Text.cut? opening payload with
  | some (before, inner) =>
    if Text.blank before then
      match Text.cutLast? closing inner with
      | some (kept, _) => Fence.strip kept
      | none => Fence.strip inner
    else Fence.strip payload
  | none => Fence.strip payload

end Verbatim

namespace Tags

def decode (payload : Text) : Text := Entity.decode (Verbatim.unwrap payload)

/-- What stands between the tags, or behind the first one where the second is missing. -/
def section? (tags : Tags) (answer : Text) : Option Text :=
  match Text.cut? tags.opening answer with
  | none => none
  | some (_, behind) =>
    match Text.cut? tags.closing behind with
    | some (inner, _) => some inner
    | none => some behind

def hasCode (tags : Tags) (answer : Text) : Bool := Text.occurs tags.opening answer

/-- The closing tag follows the opening one. -/
def isComplete (tags : Tags) (answer : Text) : Bool :=
  match Text.cut? tags.opening answer with
  | none => false
  | some (_, behind) => Text.occurs tags.closing behind

def code (tags : Tags) (answer : Text) : Text :=
  match tags.section? answer with
  | some payload => decode payload
  | none => []

/-- The code of an answer to a request to go on, and whether it is complete. -/
def continuation (tags : Tags) (answer : Text) : Text × Bool :=
  if tags.hasCode answer then (tags.code answer, tags.isComplete answer)
  else match Text.cut? tags.closing answer with
    | some (before, _) => (decode before, true)
    | none => (decode answer, false)

end Tags

namespace Reply

def hasCode (tags : Tags) : Reply → Bool
  | .text s => tags.hasCode s
  | .other _ => false

def isComplete (tags : Tags) : Reply → Bool
  | .text s => tags.isComplete s
  | .other _ => false

def code (tags : Tags) : Reply → Text
  | .text s => tags.code s
  | .other _ => []

def continuation (tags : Tags) : Reply → Text × Bool
  | .text s => tags.continuation s
  | .other _ => ([], false)

/-- The notes that an answer adds to its code. -/
def rationale : Reply → Text
  | .other _ => []
  | .text s =>
    match Text.cut? "<rationale>" s with
    | none => []
    | some (_, behind) =>
      match Text.cut? "</rationale>" behind with
      | some (inner, _) => Entity.decode (Text.trim inner)
      | none => Entity.decode (Text.trim behind)

/-- The first word of a text in lower case, the long form of `s` counting as `s`. -/
def firstWord (s : Text) : Text :=
  ((s.dropWhile fun c => !Text.isWord c).takeWhile Text.isWord).map fun c =>
    if c = 'ſ' then 's' else c.toLower

/-- Yes or no, read from the code if there is any. -/
def yesNo? (tags : Tags) : Reply → Option Bool
  | .other _ => none
  | .text s =>
    let word := firstWord (if tags.hasCode s then tags.code s else s)
    if ["yes".toList, "y".toList, "true".toList].contains word then some true
    else if ["no".toList, "n".toList, "false".toList].contains word then some false
    else none

end Reply

end Recast
