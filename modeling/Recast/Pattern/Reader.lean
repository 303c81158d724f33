import Recast.Pattern.Basic
import Recast.Value.Basic

/-!
The notation of patterns. `Pattern.read` turns a text into a pattern or says what is wrong with it
and at which place.
-/

namespace Recast

/-- What can be wrong with the notation of a pattern. -/
inductive PatternFault where
  | escapeAtEnd
  | badEscape (t : Text)
  | incompleteEscape (t : Text)
  | missing (what : Text)
  | unterminatedName (stop : Char)
  | unknownCharacter (name : Text)
  | octalTooLarge (t : Text)
  | unterminatedSet
  | badRange (a b : Text)
  | repeatBounds
  | nothingToRepeat
  | multipleRepeat
  | unexpectedEnd
  | badGroupName (name : Text)
  | badGroupNumber
  | unknownGroup (name : Text)
  | openGroup
  | groupInLook
  | invalidGroup (n : Nat)
  | redefinedGroup (name : Text) (new old : Nat)
  | unknownExtension (t : Text)
  | unterminatedComment
  | unterminatedGroup
  | manyBranches
  | misplacedFlags
  | unknownFlag
  | badFlags (why : Text)
  | unbalanced
  | variableLook
  | tooManyRepeats
  deriving DecidableEq

namespace PatternFault

def message : PatternFault → Text
  | .escapeAtEnd => "bad escape (end of pattern)"
  | .badEscape t => "bad escape " ++ t
  | .incompleteEscape t => "incomplete escape " ++ t
  | .missing what => "missing " ++ what
  | .unterminatedName stop => "missing " ++ [stop] ++ ", unterminated name"
  | .unknownCharacter name => "undefined character name " ++ Value.quoted name
  | .octalTooLarge t => "octal escape value " ++ t ++ " outside of range 0-0o377"
  | .unterminatedSet => "unterminated character set"
  | .badRange a b => "bad character range " ++ a ++ "-" ++ b
  | .repeatBounds => "min repeat greater than max repeat"
  | .nothingToRepeat => "nothing to repeat"
  | .multipleRepeat => "multiple repeat"
  | .unexpectedEnd => "unexpected end of pattern"
  | .badGroupName name => "bad character in group name " ++ Value.quoted name
  | .badGroupNumber => "bad group number"
  | .unknownGroup name => "unknown group name " ++ Value.quoted name
  | .openGroup => "cannot refer to an open group"
  | .groupInLook => "cannot refer to group defined in the same lookbehind subpattern"
  | .invalidGroup n => "invalid group reference " ++ Numeral.ofNat n
  | .redefinedGroup name new old =>
    "redefinition of group name " ++ Value.quoted name ++ " as group " ++ Numeral.ofNat new ++
      "; was group " ++ Numeral.ofNat old
  | .unknownExtension t => "unknown extension ?" ++ t
  | .unterminatedComment => "missing ), unterminated comment"
  | .unterminatedGroup => "missing ), unterminated subpattern"
  | .manyBranches => "conditional backref with more than two branches"
  | .misplacedFlags => "global flags not at the start of the expression"
  | .unknownFlag => "unknown flag"
  | .badFlags why => "bad inline flags: " ++ why
  | .unbalanced => "unbalanced parenthesis"
  | .variableLook => "look-behind requires fixed-width pattern"
  | .tooManyRepeats => "the repetition number is too large"

end PatternFault

/-- A fault and the place where it was found, if it has one. -/
structure PatternError where
  fault : PatternFault
  place : Option Nat
  deriving DecidableEq

namespace PatternError

/-- The place is also given by line and column in a pattern of several lines. -/
def message (e : PatternError) (source : Text) : Text :=
  match e.place with
  | none => e.fault.message
  | some n =>
    let before := source.take n
    let line := before.count '\n' + 1
    let column := n - (before.length - (Text.takeEndWhile (· ≠ '\n') before).length) + 1
    let column := if before.contains '\n' then column else n + 1
    e.fault.message ++ " at position " ++ Numeral.ofNat n ++
      (if source.contains '\n' then
        " (line " ++ Numeral.ofNat line ++ ", column " ++ Numeral.ofNat column ++ ")"
      else [])

end PatternError

structure PatternFlags where
  anyCase : Bool := false
  multiline : Bool := false
  dotAll : Bool := false
  verbose : Bool := false
  asciiOnly : Bool := false
  deriving DecidableEq

namespace PatternFlags

def comparison (f : PatternFlags) : Comparison := ⟨f.anyCase, f.asciiOnly⟩

end PatternFlags

/-- The state of the reader: what is left and where it stands, and the groups so far, with the
width of those that are closed. -/
structure PatternReading where
  rest : Text
  place : Nat
  widths : Array (Option (Nat × Nat)) := #[]
  names : List (Text × Nat) := []
  lookStart : Option Nat := none
  pending : List (Nat × Nat) := []
  flags : PatternFlags := {}

abbrev ReadPattern := StateT PatternReading (Except PatternError)

namespace ReadPattern

def fail {α : Type} (fault : PatternFault) (back : Nat) : ReadPattern α := do
  let r ← get
  throw ⟨fault, some (r.place - back)⟩

def place : ReadPattern Nat := do return (← get).place

/-- The next character; a backslash counts together with the character behind it. -/
def next : ReadPattern Text := do
  match (← get).rest with
  | '\\' :: c :: _ => return ['\\', c]
  | c :: _ => return [c]
  | [] => return []

def checkEnd : ReadPattern Unit := do
  let r ← get
  if r.rest = ['\\'] then throw ⟨.escapeAtEnd, some r.place⟩

def advance : ReadPattern Unit := do
  let t ← next
  modify fun r => { r with rest := r.rest.drop t.length, place := r.place + t.length }
  checkEnd

/-- Takes the next character, or nothing at the end. -/
def take : ReadPattern Text := do
  let t ← next
  advance
  return t

def accept (c : Char) : ReadPattern Bool := do
  if (← next) = [c] then
    advance
    return true
  else return false

def takeWhile (p : Char → Bool) : Nat → ReadPattern Text
  | 0 => return []
  | n + 1 => do
    match ← next with
    | [c] =>
      if p c then
        advance
        return c :: (← takeWhile p n)
      else return []
    | _ => return []

/-- A name up to the character `stop`, which is taken too. -/
def nameUntil (stop : Char) (what : Text) : Nat → Text → ReadPattern Text
  | 0, found => return found
  | fuel + 1, found => do
    match ← take with
    | [] =>
      if found.isEmpty then fail (.missing what) 0
      else fail (.unterminatedName stop) found.length
    | t =>
      if t = [stop] then
        if found.isEmpty then fail (.missing what) 1 else return found
      else nameUntil stop what fuel (found ++ t)

def takeName (stop : Char) (what : Text) : ReadPattern Text := do
  nameUntil stop what ((← get).rest.length + 1) []

def isIdentifier (name : Text) : Bool :=
  match name with
  | [] => false
  | c :: r => (c = '_' || Text.isLetter c) && r.all Text.isWord

def checkName (name : Text) : ReadPattern Unit := do
  if !isIdentifier name then fail (.badGroupName name) (name.length + 1)

def isOctal (c : Char) : Bool := '0' ≤ c && c ≤ '7'

def octal (s : Text) : Nat := s.foldl (fun n c => 8 * n + Numeral.digitValue c) 0

def hexEscape (escape : Text) (n : Nat) : ReadPattern Nat := do
  let escape := escape ++ (← takeWhile Numeral.isHex n)
  if escape.length ≠ n + 2 then fail (.incompleteEscape escape) escape.length
  else
    let code := Numeral.baseValue 16 (escape.drop 2)
    if 0x110000 ≤ code then fail (.badEscape escape) escape.length else return code

def characterName : ReadPattern Nat := do
  if !(← accept '\x7b') then fail (.missing "\x7b") 0
  else
    let name ← takeName '\x7d' "character name"
    fail (.unknownCharacter name) (name.length + 4)

def control? (c : Char) : Option Nat :=
  match c with
  | 'a' => some 7
  | 'f' => some 12
  | 'n' => some 10
  | 'r' => some 13
  | 't' => some 9
  | 'v' => some 11
  | '\\' => some 92
  | _ => none

def class? (c : Char) : Option SetPart :=
  match c with
  | 'd' => some (.named .digit false)
  | 'D' => some (.named .digit true)
  | 's' => some (.named .space false)
  | 'S' => some (.named .space true)
  | 'w' => some (.named .word false)
  | 'W' => some (.named .word true)
  | _ => none

def literal (n : Nat) : SetPart := .range n n

/-- What a backslash and a character mean inside a set. -/
def setEscape (escape : Text) : ReadPattern SetPart := do
  let c := escape.getLast?.getD ' '
  match control? c, class? c with
  | some n, _ => return literal n
  | none, some part => return part
  | none, none =>
    if c = 'b' then return literal 8
    else if c = 'x' then return literal (← hexEscape escape 2)
    else if c = 'u' then return literal (← hexEscape escape 4)
    else if c = 'U' then return literal (← hexEscape escape 8)
    else if c = 'N' then return literal (← characterName)
    else if isOctal c then
      let escape := escape ++ (← takeWhile isOctal 2)
      let n := octal (escape.drop 1)
      if 0o377 < n then fail (.octalTooLarge escape) escape.length else return literal n
    else if c.isAlphanum then fail (.badEscape escape) escape.length
    else return literal c.toNat

def single (flags : PatternFlags) (part : SetPart) : Pattern :=
  .one ⟨[part], false, flags.comparison⟩

def closedWidth? (n : Nat) : ReadPattern (Option (Nat × Nat)) := do
  return ((← get).widths[n - 1]?).join

def checkLook (n : Nat) : ReadPattern Unit := do
  match (← get).lookStart with
  | none => return ()
  | some start =>
    if (← closedWidth? n).isNone then fail .openGroup 0
    else if start ≤ n then fail .groupInLook 0

def backReference (flags : PatternFlags) (n back : Nat) : ReadPattern Pattern := do
  match ← closedWidth? n with
  | none => fail .openGroup back
  | some (least, most) =>
    checkLook n
    return .same n flags.comparison least most

/-- What a backslash and a character mean outside a set. -/
def escape (flags : PatternFlags) (escape : Text) : ReadPattern Pattern := do
  let c := escape.getLast?.getD ' '
  let one (n : Nat) := single flags (literal n)
  match control? c, class? c with
  | _, some part => return single flags part
  | some n, none => return one n
  | none, none =>
    if c = 'A' then return .anchor .start
    else if c = 'Z' then return .anchor .finish
    else if c = 'b' then return .anchor (.boundary flags.asciiOnly)
    else if c = 'B' then return .anchor (.inside flags.asciiOnly)
    else if c = 'x' then return one (← hexEscape escape 2)
    else if c = 'u' then return one (← hexEscape escape 4)
    else if c = 'U' then return one (← hexEscape escape 8)
    else if c = 'N' then return one (← characterName)
    else if c = '0' then
      let more ← takeWhile isOctal 2
      return one (octal more)
    else if c.isDigit then
      let second ← takeWhile Char.isDigit 1
      let third ← if (c :: second).all isOctal && !second.isEmpty then takeWhile isOctal 1 else pure []
      let digits := c :: second ++ third
      let escape := '\\' :: digits
      if !third.isEmpty then
        if 0o377 < octal digits then fail (.octalTooLarge escape) escape.length
        else return one (octal digits)
      else
        let n := Numeral.value digits
        if n ≤ (← get).widths.size then backReference flags n escape.length
        else fail (.invalidGroup n) (escape.length - 1)
    else if c.isAlpha then fail (.badEscape escape) escape.length
    else return one c.toNat

def setPart (t : Text) : ReadPattern SetPart :=
  match t with
  | ['\\', _] => setEscape t
  | t => return literal (t.head?.getD ' ').toNat

/-- The parts of a set up to its closing bracket. -/
def setParts (here : Nat) : Nat → List SetPart → ReadPattern (List SetPart)
  | 0, parts => return parts
  | fuel + 1, parts => do
    let unterminated : ReadPattern (List SetPart) := do
      fail .unterminatedSet ((← place) - here)
    let this ← take
    if this = [] then unterminated
    else if this = [']'] && !parts.isEmpty then return parts
    else
      let low ← setPart this
      if ← accept '-' then
        let that ← take
        if that = [] then unterminated
        else if that = [']'] then return parts ++ [low, literal 45]
        else
          let high ← setPart that
          let bad : ReadPattern (List SetPart) :=
            fail (.badRange this that) (this.length + 1 + that.length)
          match low, high with
          | .range a b, .range c d =>
            if a ≠ b || c ≠ d || c < a then bad
            else setParts here fuel (parts ++ [.range a c])
          | _, _ => bad
      else setParts here fuel (parts ++ [low])

def charSet (flags : PatternFlags) : ReadPattern Pattern := do
  let here := (← place) - 1
  let negated ← accept '^'
  let parts ← setParts here ((← get).rest.length + 1) []
  return .one ⟨parts, negated, flags.comparison⟩

/-- The bounds of a repetition in braces; nothing where the brace stands for itself. -/
def bounds? (here : Nat) : ReadPattern (Option (Nat × Option Nat)) := do
  let saved ← get
  let restore : ReadPattern (Option (Nat × Option Nat)) := do
    set saved
    return none
  if (← next) = ['\x7d'] then return none
  let size := saved.rest.length
  let low ← takeWhile Char.isDigit size
  let comma ← accept ','
  let high ← if comma then takeWhile Char.isDigit size else pure low
  if !(← accept '\x7d') then restore
  else
    let least := Numeral.value low
    let most := if high.isEmpty then none else some (Numeral.value high)
    if 4294967295 ≤ least || most.any (4294967295 ≤ ·) then throw ⟨.tooManyRepeats, none⟩
    else if most.any (· < least) then fail .repeatBounds ((← place) - here)
    else return some (least, most)

/-- The mark behind a repetition. -/
def greed : ReadPattern Greed := do
  match ← next with
  | ['?'] =>
    advance
    return .lazy
  | ['+'] =>
    advance
    return .possessive
  | _ => return .greedy

def repeatItem (here : Nat) (width : Nat) (items : List Pattern) (least : Nat) (most : Option Nat) :
    ReadPattern (List Pattern) := do
  let back := (← place) - here + width
  match items with
  | [] => fail .nothingToRepeat back
  | .anchor _ :: _ => fail .nothingToRepeat back
  | .repeated _ _ _ _ :: _ => fail .multipleRepeat back
  | item :: before => return .repeated item least most (← greed) :: before

def isFlag (c : Char) : Bool := ['i', 'L', 'm', 's', 'x', 'a', 't', 'u'].contains c

def setFlag (on : Bool) (c : Char) (f : PatternFlags) : PatternFlags :=
  match c with
  | 'i' => { f with anyCase := on }
  | 'm' => { f with multiline := on }
  | 's' => { f with dotAll := on }
  | 'x' => { f with verbose := on }
  | 'a' => { f with asciiOnly := on }
  | 'u' => { f with asciiOnly := !on }
  | _ => f

def unknown {α : Type} (t what : Text) : ReadPattern α :=
  if t.all fun c => Text.isLetter c then fail .unknownFlag t.length else fail (.missing what) t.length

/-- Flags that are turned on, up to one of `)`, `-` and `:`. -/
def flagsOn : Nat → Char → List Char → ReadPattern (List Char × Char)
  | 0, c, found => return (found, c)
  | fuel + 1, c, found => do
    if c = 'L' then fail (.badFlags "cannot use 'L' flag with a str pattern") 0
    else
      let found := found ++ [c]
      if found.contains 'a' && found.contains 'u' then
        fail (.badFlags "flags 'a', 'u' and 'L' are incompatible") 0
      else
        match ← take with
        | [] => fail (.missing "-, : or )") 0
        | [d] =>
          if d = ')' || d = '-' || d = ':' then return (found, d)
          else if isFlag d then flagsOn fuel d found
          else unknown [d] "-, : or )"
        | t => unknown t "-, : or )"

def flagsOff : Nat → Char → List Char → ReadPattern (List Char)
  | 0, _, found => return found
  | fuel + 1, c, found => do
    if c = 'a' || c = 'u' || c = 'L' then
      fail (.badFlags "cannot turn off flags 'a', 'u' and 'L'") 0
    else
      let found := found ++ [c]
      match ← take with
      | [] => fail (.missing ":") 0
      | [':'] => return found
      | [d] => if isFlag d then flagsOff fuel d found else unknown [d] ":"
      | t => unknown t ":"

/-- The flags of a group, turned on and turned off; nothing for flags of the whole pattern. -/
def groupFlags? (c : Char) : ReadPattern (Option (List Char × List Char)) := do
  let size := (← get).rest.length + 1
  let (on, stop) ← if c = '-' then pure ([], '-') else flagsOn size c []
  if stop = ')' then
    modify fun r => { r with flags := on.foldl (fun f c => setFlag true c f) r.flags }
    return none
  else if on.contains 't' then fail (.badFlags "cannot turn on global flag") 1
  else
    let off ← if stop = '-' then
        match ← take with
        | [] => fail (.missing "flag") 0
        | [d] => if isFlag d then flagsOff size d [] else unknown [d] "flag"
        | t => unknown t "flag"
      else pure []
    if off.contains 't' then fail (.badFlags "cannot turn off global flag") 1
    else if on.any off.contains then fail (.badFlags "flag turned on and off") 1
    else return some (on, off)

def openGroup (name : Option Text) : ReadPattern Nat := do
  let n := (← get).widths.size + 1
  match name with
  | none => pure ()
  | some name =>
    match (← get).names.find? fun e => e.1 == name with
    | some (_, old) => fail (.redefinedGroup name n old) (name.length + 1)
    | none => modify fun r => { r with names := (name, n) :: r.names }
  modify fun r => { r with widths := r.widths.push none }
  return n

def closeGroup (n : Nat) (p : Pattern) : ReadPattern Unit :=
  modify fun r => { r with widths := r.widths.set! (n - 1) (some p.width) }

def skipComment (start : Nat) : Nat → ReadPattern Unit
  | 0 => return ()
  | fuel + 1 => do
    if (← next) = [] then fail .unterminatedComment ((← place) - start)
    else if (← take) = [')'] then return ()
    else skipComment start fuel

def skipLine : Nat → ReadPattern Unit
  | 0 => return ()
  | fuel + 1 => do
    let t ← take
    if t = [] || t = ['\n'] then return () else skipLine fuel

def ofItems (items : List Pattern) : Pattern :=
  items.foldl (fun later item => match later with
    | .empty => item
    | later => .seq item later) .empty

def condition (start : Nat) : ReadPattern Nat := do
  let name ← takeName ')' "group name"
  let _ := start
  let n ←
    if isIdentifier name then
      match (← get).names.find? fun e => e.1 == name with
      | some (_, n) => pure n
      | none => fail (.unknownGroup name) (name.length + 1)
    else if name.all Text.isDigit then
      let n := Text.digitsValue name
      if n = 0 then fail .badGroupNumber (name.length + 1)
      else
        let here := (← place) - name.length - 1
        modify fun r => { r with pending := r.pending ++ [(n, here)] }
        pure n
    else fail (.badGroupName name) (name.length + 1)
  checkLook n
  return n

mutual

/-- Alternatives. Only flags at the very start of a pattern hold for all of it. -/
def alternatives (top : Bool) : Nat → PatternFlags → Bool → ReadPattern Pattern
  | 0, _, _ => return .empty
  | fuel + 1, flags, first => do
    let (p, flags) ← items top first fuel flags []
    if ← accept '|' then
      return .alt p (← alternatives top fuel flags false)
    else return p

/-- A sequence, the items found so far being listed from the last to the first. -/
def items (top first : Bool) : Nat → PatternFlags → List Pattern → ReadPattern (Pattern × PatternFlags)
  | 0, flags, found => return (ofItems found, flags)
  | fuel + 1, flags, found => do
    let this ← next
    if this = [] || this = ['|'] || this = [')'] then return (ofItems found, flags)
    else
      advance
      let size := (← get).rest.length + 1
      match this with
      | ['\\', _] => items top first fuel flags ((← escape flags this) :: found)
      | [c] =>
        if flags.verbose && [' ', '\t', '\n', '\r', '\x0b', '\x0c'].contains c then
          items top first fuel flags found
        else if flags.verbose && c = '#' then
          skipLine size
          items top first fuel flags found
        else if c = '[' then items top first fuel flags ((← charSet flags) :: found)
        else if c = '.' then
          let any : Pattern := if flags.dotAll then .one ⟨[], true, {}⟩
            else .one ⟨[literal 10], true, {}⟩
          items top first fuel flags (any :: found)
        else if c = '^' then
          items top first fuel flags (.anchor (if flags.multiline then .startOfLine else .start) :: found)
        else if c = '$' then
          items top first fuel flags
            (.anchor (if flags.multiline then .finishOfLine else .finishOrFeed) :: found)
        else if c = '?' || c = '*' || c = '+' then
          let here ← place
          let (least, most) : Nat × Option Nat :=
            if c = '?' then (0, some 1) else if c = '*' then (0, none) else (1, none)
          items top first fuel flags (← repeatItem here 1 found least most)
        else if c = '\x7b' then
          let here ← place
          match ← bounds? here with
          | none => items top first fuel flags (single flags (literal c.toNat) :: found)
          | some (least, most) => items top first fuel flags (← repeatItem here 1 found least most)
        else if c = '(' then
          match ← group (top && first && found.isEmpty) fuel flags with
          | some p => items top first fuel flags (p :: found)
          | none =>
            let whole := (← get).flags
            let flags := if top && first && found.isEmpty then whole else flags
            items top first fuel flags found
        else items top first fuel flags (single flags (literal c.toNat) :: found)
      | _ => return (ofItems found, flags)

/-- A group behind its opening parenthesis; nothing for a comment or flags of the whole pattern. -/
def group (mayFlag : Bool) : Nat → PatternFlags → ReadPattern (Option Pattern)
  | 0, _ => return none
  | fuel + 1, flags => do
    let start := (← place) - 1
    let close : ReadPattern Unit := do
      if !(← accept ')') then fail .unterminatedGroup ((← place) - start)
    let capture (name : Option Text) : ReadPattern (Option Pattern) := do
      let n ← openGroup name
      let p ← alternatives false fuel flags false
      close
      closeGroup n p
      return some (.group n p)
    let look (behind negated : Bool) : ReadPattern (Option Pattern) := do
      let outer := (← get).lookStart
      if behind && outer.isNone then
        modify fun r => { r with lookStart := some (r.widths.size + 1) }
      let p ← alternatives false fuel flags false
      if behind && outer.isNone then modify fun r => { r with lookStart := none }
      close
      return some (.look behind negated p)
    if !(← accept '?') then capture none
    else
      match ← take with
      | [] => fail .unexpectedEnd 0
      | ['P'] =>
        match ← take with
        | [] => fail .unexpectedEnd 0
        | ['<'] =>
          let name ← takeName '>' "group name"
          checkName name
          capture (some name)
        | ['='] =>
          let name ← takeName ')' "group name"
          checkName name
          match (← get).names.find? fun e => e.1 == name with
          | none => fail (.unknownGroup name) (name.length + 1)
          | some (_, n) => return some (← backReference flags n (name.length + 1))
        | t => fail (.unknownExtension ('P' :: t)) (t.length + 2)
      | [':'] =>
        let p ← alternatives false fuel flags false
        close
        return some (.bundle p)
      | ['#'] =>
        skipComment start ((← get).rest.length + 1)
        return none
      | ['='] => look false false
      | ['!'] => look false true
      | ['<'] =>
        match ← take with
        | [] => fail .unexpectedEnd 0
        | ['='] => look true false
        | ['!'] => look true true
        | t => fail (.unknownExtension ('<' :: t)) (t.length + 2)
      | ['('] =>
        let n ← condition start
        let (yes, _) ← items false false fuel flags []
        let no ← if ← accept '|' then
            let (no, _) ← items false false fuel flags []
            if (← next) = ['|'] then fail .manyBranches 0 else pure no
          else pure .empty
        close
        return some (.given n yes no)
      | ['>'] =>
        let p ← alternatives false fuel flags false
        close
        return some (.atomic p)
      | t =>
        match t with
        | [c] =>
          if isFlag c || c = '-' then
            match ← groupFlags? c with
            | none =>
              if !mayFlag then fail .misplacedFlags ((← place) - start)
              else return none
            | some (on, off) =>
              let inner := off.foldl (fun f c => setFlag false c f)
                (on.foldl (fun f c => setFlag true c f) flags)
              let p ← alternatives false fuel inner false
              close
              return some (.bundle p)
          else fail (.unknownExtension t) (t.length + 1)
        | t => fail (.unknownExtension t) (t.length + 1)

end

end ReadPattern

namespace Pattern

def readAll (s : Text) : ReadPattern Pattern := do
  ReadPattern.checkEnd
  let p ← ReadPattern.alternatives true (3 * s.length + 6) {} true
  if (← ReadPattern.next) ≠ [] then ReadPattern.fail .unbalanced 0
  else
    let r ← get
    match r.pending.find? fun (n, _) => r.widths.size < n with
    | some (n, here) => throw ⟨.invalidGroup n, some here⟩
    | none => if p.lookFixed then return p else throw ⟨.variableLook, none⟩

def read (s : Text) : Except PatternError Pattern :=
  match (readAll s).run { rest := s, place := 0 } with
  | .ok (p, _) => .ok p
  | .error e => .error e

end Pattern

end Recast
