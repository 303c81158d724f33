import Recast.Settings.Basic
import Recast.Text.Line

/-!
Source text in chunks. A chunk is a whole number of lines and ends at the first line where it is
longer than the budget and every block is closed; `flatten_chunkLines` says that no line is lost.
-/

namespace Recast

structure Chunk where
  index : Nat
  text : Text
  structural : Bool
  deriving DecidableEq

namespace Chunk

/-- How many blocks more a line opens than it closes. -/
def delta (symbols : Symbols) (line : Text) : Int :=
  Text.occurrences symbols.opening line - Text.occurrences symbols.closing line

/-- The line declares a type: it begins and ends as the settings say. -/
def isBlockStart (settings : LanguageSettings) (line : Text) : Bool :=
  let body := Text.trim line
  !body.isEmpty && settings.blockStart.pattern.matchesStart body &&
    Text.endsWith settings.blockEnd body

/-- The first line that is not blank declares a type. -/
def isStructural (settings : LanguageSettings) (text : Text) : Bool :=
  match (Text.bareLines text).find? fun line => !Text.blank line with
  | some line => isBlockStart settings line
  | none => false

/-- Lines gathered into chunks, the lines of the open chunk being given from the last to the
first. -/
def gather (settings : LanguageSettings) (held : List Text) (length : Nat) (depth : Int) :
    List Text → List (List Text)
  | [] => if held.isEmpty then [] else [held.reverse]
  | line :: rest =>
    let length := length + line.length
    let depth := depth + delta settings.symbols line
    if settings.chunkSize < length && depth = 0 then
      (line :: held).reverse :: gather settings [] 0 depth rest
    else gather settings (line :: held) length depth rest

def number (settings : LanguageSettings) (texts : List Text) : List Chunk :=
  texts.mapIdx fun i text => ⟨i, text, isStructural settings text⟩

def split (settings : LanguageSettings) (text : Text) : List Chunk :=
  number settings ((gather settings [] 0 0 (Text.lines text)).map List.flatten)

/-- A long type is converted outline first. -/
def needsOutline (settings : LanguageSettings) (chunk : Chunk) : Bool :=
  chunk.structural && settings.outlineThreshold < chunk.text.length

theorem flatten_gather (settings : LanguageSettings) (held : List Text) (length : Nat)
    (depth : Int) (lines : List Text) :
    (gather settings held length depth lines).flatten = held.reverse ++ lines := by
  induction lines generalizing held length depth with
  | nil =>
    unfold gather
    split
    · rename_i none_held
      simp [List.isEmpty_iff.1 none_held]
    · simp
  | cons line rest ih =>
    unfold gather
    dsimp only
    split <;> simp [ih]

end Chunk

end Recast
