import Recast.Settings.Basic
import Recast.Text.Line

/-!
Block symbols in a text, and the text up to the last block that is closed.
-/

namespace Recast

inductive Token where
  | opening
  | closing
  deriving DecidableEq

namespace Symbols

/-- The symbol that a text begins with, the opening one being tried first. -/
def token? (symbols : Symbols) (s : Text) : Option Token :=
  if Text.startsWith symbols.opening s then some .opening
  else if Text.startsWith symbols.closing s then some .closing
  else none

def size (symbols : Symbols) : Token → Nat
  | .opening => symbols.opening.length
  | .closing => symbols.closing.length

/-- The symbols of a text from left to right; `skip` characters still belong to the symbol found
last. -/
def tokensFrom (symbols : Symbols) : Nat → Text → List Token
  | _, [] => []
  | skip + 1, _ :: r => tokensFrom symbols skip r
  | 0, c :: r =>
    match symbols.token? (c :: r) with
    | some t => t :: tokensFrom symbols (symbols.size t - 1) r
    | none => tokensFrom symbols 0 r

def tokens (symbols : Symbols) (s : Text) : List Token := tokensFrom symbols 0 s

/-- The place behind the last closing symbol that has an opening one before it. -/
def lastClose? (symbols : Symbols) (depth place : Nat) (found : Option Nat) :
    Nat → Text → Option Nat
  | _, [] => found
  | skip + 1, _ :: r => lastClose? symbols depth (place + 1) found skip r
  | 0, c :: r =>
    match symbols.token? (c :: r) with
    | some .opening =>
      lastClose? symbols (depth + 1) (place + 1) found (symbols.opening.length - 1) r
    | some .closing =>
      let found := if 0 < depth then some (place + symbols.closing.length) else found
      lastClose? symbols (depth - 1) (place + 1) found (symbols.closing.length - 1) r
    | none => lastClose? symbols depth (place + 1) found 0 r

/-- Cuts a text behind its last block that is closed; blanks up to the end of that line stay. -/
def truncate (symbols : Symbols) (code : Text) : Text :=
  match symbols.lastClose? 0 0 none 0 code with
  | none => code
  | some cut =>
    let kept := code.take cut
    let rest := code.drop cut
    let gap := rest.takeWhile (· ≠ '\n')
    if Text.blank gap then kept ++ rest.take (gap.length + 1) else kept

/-- What is left of a text that is cut back begins the text. -/
theorem truncate_prefix (symbols : Symbols) (code : Text) : symbols.truncate code <+: code := by
  unfold truncate
  split
  · exact List.prefix_refl _
  · rename_i cut _
    dsimp only
    split
    · rw [← List.take_add]
      exact List.take_prefix _ _
    · exact List.take_prefix _ _

end Symbols

end Recast
