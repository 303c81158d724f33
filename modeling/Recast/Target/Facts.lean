import Recast.Target.Registry

/-!
Parsers that answer from a table. Each entry of the table names the language and holds a code with
what the parser of that language says about it; about any other code it says nothing.
-/

namespace Recast.Facts

def importedName (v : Value) : ImportedName :=
  match v.items with
  | name :: shownAs :: _ => ⟨name.text?.getD [], shownAs.text?⟩
  | name :: _ => ⟨name.text?.getD [], none⟩
  | [] => ⟨[], none⟩

def fromImport? (v : Value) : Option FromImport :=
  if v.textAt "type" = "ImportFrom".toList then
    some ⟨v.textAt? "module", v.sizeAt "level", (v.itemsAt "names").map importedName⟩
  else none

def located (v : Value) : LocatedImport :=
  ⟨v.sizeAt "lineno", v.sizeAt "col_offset", v.sizeAt "end_lineno", v.sizeAt "end_col_offset",
    fromImport? v⟩

def statement (v : Value) : Statement :=
  match v.items.map fun i => i.text?.getD [] with
  | kind :: name :: _ =>
    if kind = "ClassDef".toList then .type name
    else if kind = "ImportFrom".toList then .fromImport
    else .other
  | _ => .other

def complaint? (v : Value) : Option Complaint :=
  match v with
  | .dict _ =>
    let message := v.textAt? "message"
    if v.textAt "kind" = "ValueError".toList then some (.unreadable (message.getD []))
    else some (.malformed message (match v.field "line" with
      | .int n => some n
      | _ => none))
  | _ => none

def outline? (v : Value) : Option ModuleOutline :=
  match v with
  | .dict _ => some ⟨(v.itemsAt "body").map statement, (v.itemsAt "imports").map located⟩
  | _ => none

/-- A node with its children, as deep as the first number says. -/
def node : Nat → Value → Node
  | depth, v =>
    let children := match depth with
      | 0 => []
      | depth + 1 => (v.itemsAt "children").map (node depth)
    ⟨v.textAt "type", v.sizeAt "start", v.sizeAt "end", v.sizeAt "row", v.truthAt "named",
      v.truthAt "missing", v.truthAt "has_error", v.textAt? "field", children⟩

/-- How deep a tree goes. -/
def depth : Value → Nat
  | .dict es => depthOf es + 1
  | .list vs => depthAll vs + 1
  | _ => 0
where
  depthOf : List (Text × Value) → Nat
    | [] => 0
    | (_, v) :: es => max (depth v) (depthOf es)
  depthAll : List Value → Nat
    | [] => 0
    | v :: vs => max (depth v) (depthAll vs)

def entry (table : List Value) (language : String) (code : Text) (part : String) : Value :=
  ((table.find? fun e =>
    e.textAt "lang" = language.toList && e.textAt "code" = code).getD .null).field part

def parsers (table : List Value) : Parsers where
  module := {
    complaint? := fun code => complaint? (entry table "python" code "compile")
    outline? := fun code => outline? (entry table "python" code "ast") }
  tree := fun code =>
    let root := entry table "java" code "root"
    node (depth root) root

end Recast.Facts
