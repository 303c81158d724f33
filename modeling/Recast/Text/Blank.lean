import Recast.Text.Basic

/-!
White space, and texts without the white space at their ends. `trim_eq` says that trimming takes
blanks away and nothing else.
-/

namespace Recast.Text

/-- White space of every script, and the four information separators of ASCII. -/
def isBlank (c : Char) : Bool :=
  let n := c.toNat
  (9 ≤ n && n ≤ 13) || (28 ≤ n && n ≤ 32) || n = 133 || n = 160 || n = 5760 ||
    (8192 ≤ n && n ≤ 8202) || n = 8232 || n = 8233 || n = 8239 || n = 8287 || n = 12288

def blank (s : Text) : Bool := s.all isBlank

def trimLeft (s : Text) : Text := s.dropWhile isBlank

def trimRight (s : Text) : Text := dropEndWhile isBlank s

def trim (s : Text) : Text := trimRight (trimLeft s)

/-- The spaces and tabs that a line begins with. -/
def indent (s : Text) : Text := s.takeWhile fun c => c = ' ' || c = '\t'

/-- The maximal runs without a character of the class `p`. -/
def fields (p : Char → Bool) : Text → List Text
  | [] => []
  | c :: r =>
    if p c then fields p r
    else match r with
      | [] => [[c]]
      | d :: _ =>
        if p d then [c] :: fields p r
        else match fields p r with
          | [] => [[c]]
          | w :: ws => (c :: w) :: ws

theorem dropEndWhile_append_takeEndWhile (p : Char → Bool) (s : Text) :
    dropEndWhile p s ++ takeEndWhile p s = s := by
  unfold dropEndWhile takeEndWhile
  rw [← List.reverse_append, List.takeWhile_append_dropWhile, List.reverse_reverse]

theorem trim_eq (s : Text) : ∃ left right : Text,
    blank left ∧ blank right ∧ s = left ++ trim s ++ right := by
  refine ⟨s.takeWhile isBlank, takeEndWhile isBlank (trimLeft s), ?_, ?_, ?_⟩
  · exact List.all_takeWhile
  · unfold blank takeEndWhile
    rw [List.all_reverse]
    exact List.all_takeWhile
  · unfold trim trimRight
    rw [List.append_assoc, dropEndWhile_append_takeEndWhile]
    exact List.takeWhile_append_dropWhile.symm

end Recast.Text
