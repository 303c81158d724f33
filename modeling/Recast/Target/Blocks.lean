import Recast.Source.Balance
import Recast.Target.Basic

/-!
Target languages of which only the block symbols are known. Code is well formed when its symbols
balance; the lines that begin with one of a few words declare its package or import something.
-/

namespace Recast

namespace Symbols

def locateFrom (symbols : Symbols) (number : Nat) : List Text → List (Token × Nat)
  | [] => []
  | line :: rest =>
    (symbols.tokens line).map (fun t => (t, number)) ++ locateFrom symbols (number + 1) rest

/-- The symbols of a code, each with the number of its line. -/
def locate (symbols : Symbols) (code : Text) : List (Token × Nat) :=
  symbols.locateFrom 1 (Text.bareLines code)

/-- The lines of closing symbols that close nothing, and of opening symbols that stay open; the
innermost open line comes first in `held`. -/
def scan (held : List Nat) : List (Token × Nat) → List Nat × List Nat
  | [] => ([], held.reverse)
  | (.opening, n) :: rest => scan (n :: held) rest
  | (.closing, n) :: rest =>
    match held with
    | [] => let (unmatched, unclosed) := scan [] rest; (n :: unmatched, unclosed)
    | _ :: outer => scan outer rest

def unmatched (symbols : Symbols) (line : Nat) : Issue :=
  ⟨"Unmatched '" ++ symbols.closing ++ "'", line⟩

def unclosed (symbols : Symbols) (line : Nat) : Issue :=
  ⟨"Unclosed '" ++ symbols.opening ++ "'", line⟩

/-- Symbols without a partner, in the order of their lines. -/
def issues (symbols : Symbols) (code : Text) : List Issue :=
  let (closings, openings) := scan [] (symbols.locate code)
  Ordered.sort (fun a b => a.line ≤ b.line)
    (closings.map symbols.unmatched ++ openings.map symbols.unclosed)

end Symbols

namespace Target

def structuralWords : List Text :=
  ["import", "using", "use", "from", "package", "namespace", "require", "#include"]

def packageWords : List Text := ["package", "namespace"]

def endsWord (rest : Text) : Bool := !rest.head?.any Text.isWord

/-- The first word of a line declares a package or imports something. -/
def isStructural (line : Text) : Bool :=
  structuralWords.any fun w => (Text.after? w (Text.trimLeft line)).any endsWord

/-- What follows the name on a package line: blanks, and at most one mark among them. -/
def isPackageEnd (s : Text) : Bool :=
  match Text.trimLeft s with
  | [] => true
  | c :: r => (c = ';' || c = '\x7b') && Text.blank r

/-- The parts of a package line before and behind its name. -/
def packageLine? (line : Text) : Option (Text × Text) :=
  let behindWord := packageWords.findSome? fun w => Text.after? w (Text.trimLeft line)
  match behindWord.bind behindBlanks? with
  | none => none
  | some rest =>
    let behind := rest.dropWhile fun c => Text.isWord c || c = '.'
    if rest.head?.any isNameStart && isPackageEnd behind then
      some (line.take (line.length - rest.length), behind)
    else none

/-- Applies a renaming to every maximal run of name characters that begins like a name; `held` is
the run read so far, from its last character to the first. -/
def mapNames (rename : Text → Text) (held : Text) : Text → Text
  | [] => if held.isEmpty then [] else rename held.reverse
  | c :: r =>
    if held.isEmpty then
      if isNameStart c then mapNames rename [c] r else c :: mapNames rename [] r
    else if Text.isAsciiWord c then mapNames rename (c :: held) r
    else rename held.reverse ++ c :: mapNames rename [] r

def renamed (index : NameIndex) (word : Text) : Text :=
  match index.resolve? word with
  | some e => e.new
  | none => word

/-- A package line gets the namespace of its file; other such lines get the new names. -/
def restructureLine (own : Option Entry) (index : NameIndex) (line : Text) : Text :=
  let body := Text.dropEnding line
  if !isStructural body then line
  else
    let space := (own.map Entry.space).getD []
    match if space.isEmpty then none else packageLine? body with
    | some (before, behind) => before ++ space ++ behind ++ Text.ending line
    | none => mapNames (renamed index) [] body ++ Text.ending line

/-- A target language with block symbols. -/
def blocks (name extension : Text) (symbols : Symbols) : Target where
  name := name
  extension := extension
  symbols := some symbols
  issues := symbols.issues
  mainType? := firstType?
  space := fun source _ package => packageOf source package
  output := typeFile extension
  spans := fun code => some (lineSpans isStructural code)
  restructure := fun code own index =>
    some ((Text.lines code).map (restructureLine own index)).flatten

end Target

end Recast
