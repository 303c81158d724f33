import Recast.Check.Basic

/-!
What is wrong with a piece of code: a message, and the line that it is about if that is known.
-/

namespace Recast

/-- Lines count from one; a smaller number stands for no line. -/
structure Issue where
  message : Text
  line : Int := -1
  deriving DecidableEq, Inhabited

namespace Issue

def check (v : Value) : Checked Issue :=
  Issue.mk <$> Check.required "message" Check.text v <*> Check.field "line_number" (-1) Check.whole v

def toValue (i : Issue) : Value := .record [("message", .text i.message), ("line_number", .int i.line)]

def shown (i : Issue) : Text :=
  if 0 < i.line then "Line " ++ Numeral.ofInt i.line ++ ": " ++ i.message else i.message

end Issue

end Recast
