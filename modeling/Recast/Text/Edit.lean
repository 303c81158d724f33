import Recast.Text.Basic

/-!
Replacements in a text or in its bytes. The places of all replacements are those of the text as it
was, so they are carried out from the last one to the first.
-/

namespace Recast

/-- A stretch of a text and what takes its place. -/
structure Edit (α : Type) where
  start : Nat
  stop : Nat
  text : List α
  deriving DecidableEq

namespace Edit

variable {α : Type}

/-- Later stretches come first; where two begin together the longer one does. -/
def before [LT α] [DecidableLT α] [BEq α] (a b : Edit α) : Bool :=
  if a.start = b.start then
    if a.stop = b.stop then !a.text.lex b.text fun c d => decide (c < d) else b.stop ≤ a.stop
  else b.start ≤ a.start

def apply (s : List α) (e : Edit α) : List α := s.take e.start ++ e.text ++ s.drop e.stop

def applyAll [LT α] [DecidableLT α] [BEq α] (edits : List (Edit α)) (s : List α) : List α :=
  (Ordered.sort before edits).foldl apply s

end Edit

end Recast
