import Recast.Target.Basic
import Recast.Text.Bytes
import Recast.Text.Edit

/-!
Target languages in which a file begins with its package and imports name types by their packages.
A parser outside gives the tree of a code; its faulty parts become issues, and the names of
packages and imports are replaced where they stand.
-/

namespace Recast

/-- A node of a syntax tree. `start` and `stop` are places in bytes, `row` counts lines from
zero, and `faulty` says that something is wrong within the node. -/
structure Node where
  kind : Text
  start : Nat
  stop : Nat
  row : Nat
  named : Bool
  missing : Bool
  faulty : Bool
  field : Option Text
  children : List Node
  deriving Inhabited

namespace Node

def bytes (code : Text) (n : Node) : List UInt8 := ((Encoding.encode code).take n.stop).drop n.start

def text (code : Text) (n : Node) : Text := Encoding.lossy (n.bytes code)

def isError (n : Node) : Bool := n.kind == "ERROR".toList

def line (n : Node) : Int := n.row + 1

def missingPart (n : Node) : Issue := ⟨"Missing '" ++ n.kind ++ "'", n.line⟩

/-- What stands on the first line of a part that is no part of the language. -/
def misfit (code : Text) (n : Node) : Issue :=
  let near := ((Text.bareLines (Text.trim (n.text code))).head?.getD []).take 40
  ⟨"Unexpected syntax near '" ++ near ++ "'", n.line⟩

mutual

/-- How many nodes there are in a tree. -/
def size : Node → Nat
  | ⟨_, _, _, _, _, _, _, _, children⟩ => sizeOfAll children + 1

def sizeOfAll : List Node → Nat
  | [] => 0
  | n :: ns => size n + sizeOfAll ns

end

theorem size_eq (n : Node) : n.size = sizeOfAll n.children + 1 := by
  cases n
  rfl

/-- A search for issues: the nodes that are still to be looked at, the next one first, and the issues
found so far. -/
structure Search where
  ahead : List Node
  found : List Issue := []

namespace Search

/-- Puts nodes before others, from the last one to the first. -/
def push (nodes ahead : List Node) : List Node :=
  nodes.reverse.foldl (fun ahead n => n :: ahead) ahead

theorem push_eq (nodes ahead : List Node) : push nodes ahead = nodes ++ ahead := by
  rw [push, List.foldl_reverse, List.foldr_cons_eq_append, List.map_id']

/-- Looks at the next node. A part that is missing or no part of the language is an issue, and its
own parts are left out; the parts of another faulty node are looked at before all that is left. -/
def step? (code : Text) (s : Search) : Option Search :=
  match s.ahead with
  | [] => none
  | n :: rest => some <|
    if n.missing then ⟨rest, s.found ++ [n.missingPart]⟩
    else if n.isError then ⟨rest, s.found ++ [n.misfit code]⟩
    else if n.faulty then ⟨push n.children rest, s.found⟩
    else ⟨rest, s.found⟩

theorem sizeOfAll_append (ns ms : List Node) : sizeOfAll (ns ++ ms) = sizeOfAll ns + sizeOfAll ms := by
  induction ns with
  | nil => simp [sizeOfAll]
  | cons n ns ih => rw [List.cons_append, sizeOfAll, sizeOfAll, ih, Nat.add_assoc]

/-- Each step takes a node away. -/
theorem sizeOfAll_lt_of_step? {code : Text} {s t : Search} (taken : s.step? code = some t) :
    sizeOfAll t.ahead < sizeOfAll s.ahead := by
  obtain ⟨ahead, found⟩ := s
  cases ahead with
  | nil => cases taken
  | cons n rest =>
    have here := size_eq n
    have parts : sizeOfAll (push n.children rest) = sizeOfAll n.children + sizeOfAll rest := by
      rw [push_eq, sizeOfAll_append]
    simp only [step?, Option.some.injEq] at taken
    subst taken
    rw [sizeOfAll]
    split
    · simp only
      omega
    · split
      · simp only
        omega
      · split
        · simp only
          omega
        · simp only
          omega

/-- The issues that are found when no node is left. -/
def run (code : Text) (s : Search) : List Issue :=
  match taken : s.step? code with
  | none => s.found
  | some t =>
    have := sizeOfAll_lt_of_step? taken
    t.run code
termination_by sizeOfAll s.ahead

end Search

def unknown : Issue := { message := "Syntax error" }

/-- What a parser says of a code: that it is well formed, or what is wrong with it. -/
structure Verdict where
  success : Bool
  issues : List Issue := []

/-- A faulty tree in which no fault is found has one all the same. -/
def verdict (code : Text) (root : Node) : Verdict :=
  if !root.faulty then { success := true }
  else
    let found := Search.run code { ahead := [root] }
    { success := false, issues := if found.isEmpty then [unknown] else found }

/-- The issues of a code, of which there are some if it is not well formed. -/
def Verdict.reported (v : Verdict) : List Issue :=
  if v.success then []
  else if v.issues.isEmpty then [unknown]
  else v.issues

def allIssues (code : Text) (root : Node) : List Issue := (root.verdict code).reported

def typeKinds : List Text :=
  ["class_declaration", "interface_declaration", "enum_declaration", "record_declaration",
    "annotation_type_declaration"]

def isAsciiBlank (c : Char) : Bool := c = ' ' || (9 ≤ c.toNat && c.toNat ≤ 13)

def isPublic (code : Text) (n : Node) : Bool :=
  match n.children.find? fun c => c.kind == "modifiers".toList with
  | some modifiers => (Text.fields isAsciiBlank (modifiers.text code)).contains "public".toList
  | none => false

/-- The name of a type, and whether the type is public. -/
def declaredType? (code : Text) (n : Node) : Option (Text × Bool) :=
  if typeKinds.contains n.kind then
    (n.children.find? fun c => c.field == some "name".toList).map
      fun c => (c.text code, n.isPublic code)
  else none

/-- The public type of a file, or else its first one. -/
def mainType? (code : Text) (root : Node) : Option Text :=
  let types := root.children.filterMap (declaredType? code)
  match types.find? Prod.snd with
  | some (name, _) => some name
  | none => (types.head?.map Prod.fst).filter fun name => !name.isEmpty

def isPackage (n : Node) : Bool := n.kind == "package_declaration".toList

def isDeclaration (n : Node) : Bool := n.isPackage || n.kind == "import_declaration".toList

def declarations (root : Node) : List Node := root.children.filter isDeclaration

/-- The name that a declaration holds. -/
def nameNode? (n : Node) : Option Node :=
  n.children.find? fun c =>
    c.named && (c.kind == "scoped_identifier".toList || c.kind == "identifier".toList)

end Node

namespace Target

def joinPoints (parts : List Text) : Text := Text.join ['.'] parts

/-- The entry of the longest beginning of a dotted name that has one, and what follows it. -/
def longestDotted? (index : NameIndex) (segments : List Text) : Nat → Option (Entry × List Text)
  | 0 => none
  | n + 1 =>
    match index.resolveDotted? (joinPoints (segments.take (n + 1))) with
    | some e => some (e, segments.drop (n + 1))
    | none => longestDotted? index segments n

/-- The entry of the last segment that has one, and what follows it. -/
def lastBare? (index : NameIndex) (segments : List Text) : Nat → Option (Entry × List Text)
  | 0 => none
  | n + 1 =>
    match index.resolve? ((segments[n]?).getD []) with
    | some e => some (e, segments.drop (n + 1))
    | none => lastBare? index segments n

/-- The new form of a name that is imported; bare segments count only where no beginning does. -/
def requalified (index : NameIndex) (name : Text) : Text :=
  let segments := Text.pieces '.' name
  match (longestDotted? index segments segments.length).orElse
      fun _ => lastBare? index segments segments.length with
  | some (e, rest) => joinPoints (e.qualified :: rest)
  | none => name

/-- The new name in a declaration: a package is that of the file, if it has one. -/
def declaredName (space : Text) (index : NameIndex) (declaration : Node) (name : Text) : Text :=
  if declaration.isPackage then (if space.isEmpty then name else space) else requalified index name

/-- What becomes of the name in a declaration, if it has one. -/
def declarationEdit? (code : Text) (space : Text) (index : NameIndex) (n : Node) :
    Option (List (Edit UInt8)) :=
  match n.nameNode? with
  | none => some []
  | some named => (Encoding.strict? (named.bytes code)).map fun name =>
    let new := declaredName space index n name
    if new = name then [] else [⟨named.start, named.stop, Encoding.encode new⟩]

def packagePreamble (space : Text) : Text := "package " ++ space ++ ";\n\n"

/-- Names are replaced in the bytes of a code. A file without a package gets one, unless its
namespace is empty. -/
def repackage (tree : Text → Node) (code : Text) (own : Option Entry) (index : NameIndex) :
    Option Text := do
  let root := tree code
  let space := (own.map Entry.space).getD []
  let edits ← root.declarations.mapM (declarationEdit? code space index)
  let result ← Encoding.strict? (Edit.applyAll edits.flatten (Encoding.encode code))
  let hasPackage := root.declarations.any fun n => n.isPackage && n.nameNode?.isSome
  return if space.isEmpty || hasPackage then result else packagePreamble space ++ result

def declarationSpans (tree : Text → Node) (code : Text) : List Span :=
  (tree code).declarations.map
    fun n => (Text.charsWithin n.start code, Text.charsWithin n.stop code)

/-- A target language with packages. -/
def packages (tree : Text → Node) : Target where
  name := "java"
  extension := ".java"
  issues := fun code => (tree code).allIssues code
  mainType? := fun code => ((tree code).mainType? code).orElse fun _ => firstType? code
  space := fun source _ package => packageOf source package
  output := typeFile ".java"
  spans := fun code => some (declarationSpans tree code)
  restructure := repackage tree

end Target

end Recast
