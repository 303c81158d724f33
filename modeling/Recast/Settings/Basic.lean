import Recast.Pattern.Reader
import Recast.Path

/-!
The settings of a project: where its files are, how its source text is cut and which text marks a
type, how long a conversation may go on, and which service answers.
-/

namespace Recast

/-- The symbols that open and close a block. -/
structure Symbols where
  opening : Text
  closing : Text
  opening_ne_nil : opening ≠ []
  closing_ne_nil : closing ≠ []

namespace Symbols

def braces : Symbols := ⟨['\x7b'], ['\x7d'], by decide, by decide⟩

def of? (opening closing : Text) : Option Symbols :=
  if h : opening ≠ [] ∧ closing ≠ [] then some ⟨opening, closing, h.1, h.2⟩ else none

end Symbols

/-- The words around the code in an answer. -/
structure Tags where
  opening : Text
  closing : Text
  deriving DecidableEq

namespace Tags

def standard : Tags := ⟨"<code>", "</code>"⟩

end Tags

/-- How the first line of a type begins, as it was written and as it is matched. -/
structure BlockStart where
  source : Text
  pattern : Pattern

namespace BlockStart

def read (source : Text) : Except PatternError BlockStart :=
  (Pattern.read source).map fun p => ⟨source, p⟩

def typeSource : Text :=
  "^(?:(?:public|private|protected|internal|abstract|final|static|sealed|partial)\\s+)*" ++
    "(?:class|interface|enum|struct|record)\\b.*"

/-- Modifiers and one of the words that declare a type. -/
def typeDeclaration : BlockStart :=
  ⟨typeSource, match Pattern.read typeSource with
    | .ok p => p
    | .error _ => .empty⟩

end BlockStart

structure LanguageSettings where
  target : Text
  inputExtension : Text
  outputExtension : Text
  prompt : Text
  chunkSize : Nat := 4000
  outlineThreshold : Nat := 2000
  tags : Tags := .standard
  blockStart : BlockStart := .typeDeclaration
  blockEnd : Text := ['\x7b']
  symbols : Symbols := .braces
  package : Option Text := none

inductive Provider where
  | openai
  | openrouter
  | ollama
  | claude
  | custom
  deriving DecidableEq, Inhabited

namespace Provider

def name : Provider → Text
  | .openai => "openai"
  | .openrouter => "openrouter"
  | .ollama => "ollama"
  | .claude => "claude"
  | .custom => "custom"

def all : List Provider := [.openai, .openrouter, .ollama, .claude, .custom]

def ofName? (s : Text) : Option Provider := all.find? fun p => p.name = s

/-- The environment variable that holds the key of a provider. -/
def keyVariable? : Provider → Option Text
  | .openai => some "OPENAI_API_KEY"
  | .openrouter => some "OPENROUTER_API_KEY"
  | .claude => some "ANTHROPIC_API_KEY"
  | .ollama | .custom => none

end Provider

structure ServiceSettings where
  provider : Provider := .openai
  host : Text := "http://localhost:11434"
  key : Option Text := none
  url : Option Text := none
  model : Text := "gpt-4-turbo"
  temperature : Float := 0.2
  timeout : Int := 500
  maxTokens : Nat := 4096

/-- Bounds and options of a run. -/
structure RunSettings where
  maxHistory : Nat := 10
  maxContinuations : Nat := 20
  maxRedos : Nat := 2
  maxRepairDepth : Nat := 3
  maxRepairRounds : Nat := 5
  maxRetries : Nat := 3
  backoff : Float := 2.0
  summaries : Bool := false
  summaryLength : Nat := 4000
  generateNames : Bool := false
  mergeSmall : Bool := false
  smallSize : Nat := 800
  maxPasses : Nat := 10
  transcripts : Bool := false

structure ProjectSettings where
  name : Text := "reprogrammer_project"
  sourceRoot : Path := .ofText "."
  output : Path := .ofText "output"
  stateFolder : Option Path := none

namespace ProjectSettings

/-- Where checkpoints are kept: a folder of the output, unless another one is named. -/
def checkpoints (p : ProjectSettings) : Path := p.stateFolder.getD (p.output.child ".reprogrammer")

end ProjectSettings

structure Settings where
  project : ProjectSettings := {}
  language : LanguageSettings
  service : ServiceSettings := {}
  run : RunSettings := {}

end Recast
