import Recast.Target.Basic
import Recast.Text.Bytes
import Recast.Text.Edit

/-!
Target languages in which a file is a module and imports name the module that they take a name
from. A parser outside tells what is wrong with code and which imports it holds; an import whose
names moved is written anew, with one statement for each module.
-/

namespace Recast

structure ImportedName where
  name : Text
  shownAs : Option Text := none
  deriving DecidableEq

/-- Names taken from a module; `level` counts the points before the module's name. -/
structure FromImport where
  module : Option Text
  level : Nat := 0
  names : List ImportedName
  deriving DecidableEq

namespace FromImport

/-- The module as it is written, with its points. -/
def origin (s : FromImport) : Text := List.replicate s.level '.' ++ s.module.getD []

def nameText (n : ImportedName) : Text :=
  match n.shownAs with
  | some other => n.name ++ " as " ++ other
  | none => n.name

def render (s : FromImport) : Text :=
  "from " ++ s.origin ++ " import " ++ Text.join ", " (s.names.map nameText)

/-- Values gathered under their keys, both in the order in which they came. -/
def insertUnder {α : Type} (key : Text) (a : α) : List (Text × List α) → List (Text × List α)
  | [] => [(key, [a])]
  | (k, as) :: rest => if k = key then (k, as ++ [a]) :: rest else (k, as) :: insertUnder key a rest

/-- The entry that an imported name now belongs to, unless the import is right already. -/
def movedTo? (s : FromImport) (index : NameIndex) (n : ImportedName) : Option Entry :=
  if n.name = ['*'] then none
  else
    ((index.resolveDotted? (s.origin ++ '.' :: n.name)).orElse fun _ => index.resolve? n.name).filter
      fun e => !(e.space == s.origin && e.new == n.name)

/-- The names that stay, and those that moved under the modules that hold them now. -/
def sort (s : FromImport) (index : NameIndex) :
    List ImportedName → List ImportedName × List (Text × List ImportedName)
  | [] => ([], [])
  | names => names.foldl (fun (kept, moved) n =>
      match s.movedTo? index n with
      | some e => (kept, insertUnder e.space { n with name := e.new } moved)
      | none => (kept ++ [n], moved)) ([], [])

/-- The statements that take the place of an import; none where nothing moved. -/
def requalify? (s : FromImport) (index : NameIndex) : Option (List FromImport) :=
  let (kept, moved) := s.sort index s.names
  if moved.isEmpty then none
  else
    let stays := if kept.isEmpty then [] else [{ s with names := kept }]
    some (stays ++ moved.map fun (space, names) => ⟨some space, 0, names⟩)

end FromImport

/-- An import, with the lines (from one) and the bytes of these lines where it begins and ends. -/
structure LocatedImport where
  firstLine : Nat
  firstByte : Nat
  lastLine : Nat
  lastByte : Nat
  from? : Option FromImport
  deriving DecidableEq

/-- A statement of a module that stands in no other one. -/
inductive Statement where
  | type (name : Text)
  | fromImport
  | other
  deriving DecidableEq

structure ModuleOutline where
  body : List Statement
  imports : List LocatedImport
  deriving DecidableEq

/-- Why a module does not compile. -/
inductive Complaint where
  | malformed (message : Option Text) (line : Option Int)
  | unreadable (message : Text)
  deriving DecidableEq

namespace Complaint

def issue : Complaint → Issue
  | .malformed message line =>
    let message := message.getD []
    let line := line.getD 0
    ⟨if message.isEmpty then "invalid syntax" else message, if line = 0 then -1 else line⟩
  | .unreadable message => { message := message }

end Complaint

/-- A parser outside: the complaint about a code, and the outline of one that is well formed. -/
structure ModuleParser where
  complaint? : Text → Option Complaint
  outline? : Text → Option ModuleOutline

namespace Target

/-- Two runs of blanks, the first one and the last one not empty, around what may be nothing. -/
def behindOrigin? (s : Text) : Option Text :=
  let gap := s.takeWhile Text.isBlank
  let rest := s.drop gap.length
  let origin := rest.takeWhile fun c => Text.isWord c || c = '.'
  let named := if gap.isEmpty || origin.isEmpty then none
    else (behindBlanks? (rest.drop origin.length)).bind (Text.after? "import")
  named.orElse fun _ => if 2 ≤ gap.length then Text.after? "import" rest else none

/-- The line begins an import. -/
def isImportLine (line : Text) : Bool :=
  let s := Text.trimLeft line
  let fromModule := match (Text.after? "from" s).bind behindBlanks? with
    | none => false
    | some rest =>
      let behind := rest.dropWhile fun c => Text.isWord c || c = '.'
      behind.length < rest.length &&
        (((behindBlanks? behind).bind (Text.after? "import")).any fun r => !r.head?.any Text.isWord)
  let wholeModule := ((Text.after? "import" s).bind behindBlanks?).any
    fun r => r.head?.any fun c => Text.isWord c || c = '.'
  fromModule || wholeModule

/-- Names after the word that announces them, up to the end of a line and without brackets or a
comment. -/
def areNames (s : Text) : Bool :=
  let gap := s.takeWhile Text.isBlank
  let rest := s.drop gap.length
  let allowed (c : Char) := !(['(', ')', '#', '\r', '\n'].contains c)
  if rest.isEmpty then 2 ≤ gap.length && gap.getLast?.any allowed
  else !gap.isEmpty && rest.all allowed

/-- The blanks before an import of names that ends on its line. -/
def importIndent? (line : Text) : Option Text :=
  let indent := Text.indent line
  let names := (Text.after? "from" (line.drop indent.length)).bind behindOrigin?
  if names.any areNames then some indent else none

/-- The places where an import begins and ends; none where it is on a line that is not there. -/
def place? (lines : List Text) (i : LocatedImport) : Option (Nat × Nat) :=
  let at? (line byte : Nat) : Option Nat :=
    (lines[line - 1]?).map fun text =>
      (lines.take (line - 1)).flatten.length + Text.charsWithin byte text
  match at? i.firstLine i.firstByte, at? i.lastLine i.lastByte with
  | some start, some stop => some (start, stop)
  | _, _ => none

def spanOrder (a b : Span) : Bool := if a.1 = b.1 then a.2 ≤ b.2 else a.1 ≤ b.1

/-- Where the imports of a code are. -/
def importSpans (parser : ModuleParser) (code : Text) : Option (List Span) :=
  match parser.outline? code with
  | none => some (lineSpans isImportLine code)
  | some outline =>
    (outline.imports.mapM (place? (Text.feedLines code))).map fun spans => Ordered.sort spanOrder spans

def orFeed (ending : Text) : Text := if ending.isEmpty then ['\n'] else ending

/-- Statements that share their line with other code stay on that line. -/
def separator (before ending : Text) : Text :=
  if Text.blank before then orFeed ending ++ before else "; "

/-- The replacement for one import, if it needs one. -/
def importEdit? (lines : List Text) (index : NameIndex) (i : LocatedImport) :
    Option (List (Edit Char)) :=
  match i.from?.bind fun s => s.requalify? index with
  | none => some []
  | some statements =>
    (place? lines i).map fun (start, stop) =>
      let first := (lines[i.firstLine - 1]?).getD []
      let before := first.take (Text.charsWithin i.firstByte first)
      let ending := Text.feedEnding ((lines[i.lastLine - 1]?).getD [])
      [⟨start, stop, Text.join (separator before ending) (statements.map FromImport.render)⟩]

/-- One line of code that is not well formed as a whole. -/
def requalifyLine (parser : ModuleParser) (index : NameIndex) (line : Text) : Text :=
  let ending := Text.feedEnding line
  match importIndent? (line.take (line.length - ending.length)) with
  | none => line
  | some indent =>
    let statement := match parser.outline? (Text.trim line) with
      | some ⟨.fromImport :: _, i :: _⟩ => i.from?
      | _ => none
    match statement.bind fun s => s.requalify? index with
    | none => line
    | some statements =>
      Text.join (orFeed ending) (statements.map fun s => indent ++ s.render) ++ ending

def requalifyImports (parser : ModuleParser) (code : Text) (index : NameIndex) : Option Text :=
  match parser.outline? code with
  | none => some ((Text.feedLines code).map (requalifyLine parser index)).flatten
  | some outline =>
    (outline.imports.mapM (importEdit? (Text.feedLines code) index)).map
      fun edits => Edit.applyAll edits.flatten code

/-- The first type of a module; only a code without an outline is searched for a word. -/
def moduleType? (parser : ModuleParser) (code : Text) : Option Text :=
  match parser.outline? code with
  | none => firstType? code
  | some outline => outline.body.findSome? fun
    | .type name => some name
    | _ => none

/-- A target language with modules. -/
def modules (parser : ModuleParser) : Target where
  name := "python"
  extension := ".py"
  issues := fun code => ((parser.complaint? code).map Complaint.issue).toList
  mainType? := moduleType? parser
  space := fun source name package => dotted (packageOf source package) (Naming.snake name)
  output := fun space _ => (Path.ofParts (Text.pieces '.' space)).toText ++ ".py"
  spans := importSpans parser
  restructure := fun code _ index => requalifyImports parser code index

end Target

end Recast
