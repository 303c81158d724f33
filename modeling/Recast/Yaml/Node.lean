import Recast.Yaml.Literal
import Recast.Yaml.Token

/-!
The tree of a document. Names of nodes are resolved while the tree is built: a node that is named
again stands there once more. A text holds one document.
-/

namespace Recast.Yaml

inductive Node where
  | scalar (kind : Kind) (text : Text)
  | items (kind : Kind) (nodes : List Node)
  | pairs (kind : Kind) (entries : List (Node × Node))

/-- What is still to be read, the nodes that have a name, and the handles of tags. -/
structure Building where
  tokens : List Token
  named : List (Text × Option Node) := []
  handles : List (Text × Text) := []

abbrev Build := StateT Building (Except Fault)

namespace Build

def peek : Build (Option Token) := fun b => .ok (b.tokens.head?, b)

def skip : Build Unit := fun b => .ok ((), { b with tokens := b.tokens.drop 1 })

def fail {α : Type} : Build α := fun _ => .error .malformed

/-- The node of a name. Inside the node itself nothing stands for it. -/
def aliased (name : Text) : Build Node := fun b =>
  match b.named.lookup name with
  | some n => .ok (n.getD (.scalar .null []), b)
  | none => .error .malformed

/-- A name is given once. -/
def claim (name : Option Text) : Build Unit := fun b =>
  match name with
  | some a =>
    if (b.named.lookup a).isSome then .error .malformed
    else .ok ((), { b with named := (a, none) :: b.named })
  | none => .ok ((), b)

def settle (name : Option Text) (n : Node) : Build Node := fun b =>
  match name with
  | some a => .ok (n, { b with named := (a, some n) :: b.named })
  | none => .ok (n, b)

/-- The tag in full, its handle replaced by what it stands for. -/
def tagText (t : WrittenTag) : Build Text := fun b =>
  match t.handle with
  | some h =>
    match b.handles.lookup h with
    | some space => .ok (space ++ t.suffix, b)
    | none => .error .malformed
  | none => .ok (t.suffix, b)

/-- The name and the tag before a node, in either order. -/
def marks : Build (Option Text × Option WrittenTag) := do
  match ← peek with
  | some (.anchor a) =>
    skip
    match ← peek with
    | some (.tag t) =>
      skip
      return (some a, some t)
    | _ => return (some a, none)
  | some (.tag t) =>
    skip
    match ← peek with
    | some (.anchor a) =>
      skip
      return (some a, some t)
    | _ => return (none, some t)
  | _ => return (none, none)

def emptyNode : Node := .scalar .null []

/-- A tag that only says that the kind follows from the node. -/
def isOpen (tag : Option Text) : Bool := tag.isNone || tag = some ['!']

def scalarKind (tag : Option Text) (s : Text) (plain : Bool) : Kind :=
  match tag with
  | none => if plain then Kind.ofPlain s else .text
  | some t => if t = ['!'] then Kind.ofPlain s else Kind.ofTag t

def collectionKind (tag : Option Text) (default : Kind) : Kind :=
  match tag with
  | none => default
  | some t => if t = ['!'] then default else Kind.ofTag t

/-- Whether no node stands between a sign and the token that follows it. -/
def nothingAt (ends : Token → Bool) : Build Bool := do
  match ← peek with
  | some t => return ends t
  | none => return false

def endsItem : Token → Bool
  | .entry | .blockEnd => true
  | _ => false

def endsPlainItem : Token → Bool
  | .entry | .key | .value | .blockEnd => true
  | _ => false

def endsPart : Token → Bool
  | .key | .value | .blockEnd => true
  | _ => false

def endsFlowKey (close : Token → Bool) : Token → Bool
  | .value | .comma => true
  | t => close t

def endsFlowValue (close : Token → Bool) : Token → Bool
  | .comma => true
  | t => close t

def isCloseItems : Token → Bool
  | .closeItems => true
  | _ => false

def isClosePairs : Token → Bool
  | .closePairs => true
  | _ => false

mutual

/-- A node. Outside of brackets it may be a block; a value of a block of pairs may be a list that is
not indented further than its key. -/
def node (inBlock unindented : Bool) : Nat → Build Node
  | 0 => fail
  | fuel + 1 => do
    match ← peek with
    | some (.alias name) =>
      skip
      aliased name
    | _ =>
      let (name, written) ← marks
      let tag ← match written with
        | some t => some <$> tagText t
        | none => pure none
      claim name
      settle name (← content inBlock unindented (name.isSome || tag.isSome) tag fuel)

def content (inBlock unindented marked : Bool) (tag : Option Text) : Nat → Build Node
  | 0 => fail
  | fuel + 1 => do
    match ← peek, inBlock, unindented with
    | some .entry, _, true => return .items (collectionKind tag .items) (← plainItems fuel)
    | some (.scalar s plain), _, _ =>
      skip
      return .scalar (scalarKind tag s plain) s
    | some .openItems, _, _ =>
      skip
      return .items (collectionKind tag .items) (← flowItems true fuel)
    | some .openPairs, _, _ =>
      skip
      return .pairs (collectionKind tag .pairs) (← flowPairs true fuel)
    | some .blockItems, true, _ =>
      skip
      return .items (collectionKind tag .items) (← blockItems fuel)
    | some .blockPairs, true, _ =>
      skip
      return .pairs (collectionKind tag .pairs) (← blockPairs fuel)
    | _, _, _ =>
      if marked then return .scalar (scalarKind tag [] true) [] else fail

/-- A node, or the empty one if a token of the class `ends` follows. -/
def part (ends : Token → Bool) (inBlock unindented : Bool) : Nat → Build Node
  | 0 => fail
  | fuel + 1 => do
    if ← nothingAt ends then return emptyNode else node inBlock unindented fuel

/-- What stands behind a colon, or the empty node if there is no colon. -/
def valuePart (ends : Token → Bool) (inBlock : Bool) : Nat → Build Node
  | 0 => fail
  | fuel + 1 => do
    match ← peek with
    | some .value =>
      skip
      part ends inBlock inBlock fuel
    | _ => return emptyNode

def blockItems : Nat → Build (List Node)
  | 0 => fail
  | fuel + 1 => do
    match ← peek with
    | some .entry =>
      skip
      let n ← part endsItem true false fuel
      return n :: (← blockItems fuel)
    | some .blockEnd =>
      skip
      return []
    | _ => fail

def plainItems : Nat → Build (List Node)
  | 0 => fail
  | fuel + 1 => do
    match ← peek with
    | some .entry =>
      skip
      let n ← part endsPlainItem true false fuel
      return n :: (← plainItems fuel)
    | _ => return []

def blockPairs : Nat → Build (List (Node × Node))
  | 0 => fail
  | fuel + 1 => do
    match ← peek with
    | some .key =>
      skip
      let k ← part endsPart true true fuel
      let v ← valuePart endsPart true fuel
      return (k, v) :: (← blockPairs fuel)
    | some .blockEnd =>
      skip
      return []
    | _ => fail

/-- Over the comma before another part in brackets. -/
def comma (first : Bool) : Nat → Build Unit
  | 0 => fail
  | _ + 1 => do
    if first then return
    match ← peek with
    | some .comma => skip
    | _ => fail

def flowItems (first : Bool) : Nat → Build (List Node)
  | 0 => fail
  | fuel + 1 => do
    if ← nothingAt isCloseItems then
      skip
      return []
    comma first fuel
    match ← peek with
    | some .closeItems =>
      skip
      return []
    | some .key =>
      skip
      let k ← part (endsFlowKey isCloseItems) false false fuel
      let v ← valuePart (endsFlowValue isCloseItems) false fuel
      return .pairs .pairs [(k, v)] :: (← flowItems false fuel)
    | _ =>
      let n ← node false false fuel
      return n :: (← flowItems false fuel)

def flowPairs (first : Bool) : Nat → Build (List (Node × Node))
  | 0 => fail
  | fuel + 1 => do
    if ← nothingAt isClosePairs then
      skip
      return []
    comma first fuel
    match ← peek with
    | some .closePairs =>
      skip
      return []
    | some .key =>
      skip
      let k ← part (endsFlowKey isClosePairs) false false fuel
      let v ← valuePart (endsFlowValue isClosePairs) false fuel
      return (k, v) :: (← flowPairs false fuel)
    | _ =>
      let k ← node false false fuel
      return (k, emptyNode) :: (← flowPairs false fuel)

end

def standardHandles : List (Text × Text) :=
  [(['!'], ['!']), (['!', '!'], "tag:yaml.org,2002:".toList)]

/-- The directives before a document: one version, and every handle once. -/
def directives : Nat → Bool → List (Text × Text) → Build (List (Text × Text))
  | 0, _, _ => fail
  | fuel + 1, versioned, handles => do
    match ← peek with
    | some (.directive (.version major)) =>
      skip
      if versioned || Numeral.value major ≠ 1 then fail else directives fuel true handles
    | some (.directive (.handle h space)) =>
      skip
      if (handles.lookup h).isSome then fail else directives fuel versioned ((h, space) :: handles)
    | some (.directive .other) =>
      skip
      directives fuel versioned handles
    | _ => return handles

def setHandles (handles : List (Text × Text)) : Build Unit := fun b =>
  .ok ((), { b with handles := handles })

def skipEnds : Nat → Build Unit
  | 0 => fail
  | fuel + 1 => do
    match ← peek with
    | some .documentEnd =>
      skip
      skipEnds fuel
    | _ => return

/-- A document that a line of marks begins. -/
def bounded (fuel : Nat) : Build Node := do
  let handles ← directives fuel false []
  setHandles (handles ++ standardHandles)
  match ← peek with
  | some .documentStart =>
    skip
    match ← peek with
    | none | some (.directive _) | some .documentStart | some .documentEnd => return emptyNode
    | _ => node true false fuel
  | _ => fail

/-- The one document of a text; nothing in an empty text. -/
def document (fuel : Nat) : Build (Option Node) := do
  match ← peek with
  | none => return none
  | some (.directive _) | some .documentStart => some <$> finished (bounded fuel)
  | _ =>
    setHandles standardHandles
    some <$> finished (node true false fuel)
where
  finished (read : Build Node) : Build Node := do
    let n ← read
    skipEnds fuel
    match ← peek with
    | none => return n
    | some _ => fail

end Build

namespace Node

def ofText? (s : Text) : Except Fault (Option Node) := do
  let tokens ← Token.ofText s
  let (n, _) ← (Build.document (4 * tokens.length + 8)).run { tokens := tokens }
  return n

end Node

end Recast.Yaml
