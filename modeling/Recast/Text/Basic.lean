import Recast.Ordered

/-!
Text is a list of code points. This module holds the searches, cuts and substitutions that the
other modules share. `cut?` is the first occurrence of a word and `cutLast?` its last one;
`cut?_eq_some` says that nothing is lost between the two parts.
-/

namespace Recast

abbrev Text := List Char

instance : Coe String Text := ⟨String.toList⟩

namespace Text

def startsWith (w s : Text) : Bool := w.isPrefixOf s

def endsWith (w s : Text) : Bool := w.isSuffixOf s

/-- What follows `w` in a text that begins with it. -/
def after? : Text → Text → Option Text
  | [], s => some s
  | _ :: _, [] => none
  | a :: w, c :: s => if a = c then after? w s else none

/-- The text before and after the first place where `w` stands. -/
def cut? (w : Text) : Text → Option (Text × Text)
  | [] => (after? w []).map fun rest => ([], rest)
  | c :: r =>
    match after? w (c :: r) with
    | some rest => some ([], rest)
    | none => (cut? w r).map fun p => (c :: p.1, p.2)

/-- The text before and after the last place where `w` stands. -/
def cutLast? (w : Text) : Text → Option (Text × Text)
  | [] => (after? w []).map fun rest => ([], rest)
  | c :: r =>
    match cutLast? w r with
    | some p => some (c :: p.1, p.2)
    | none => (after? w (c :: r)).map fun rest => ([], rest)

def occurs (w s : Text) : Bool := (cut? w s).isSome

/-- Counts from left to right; `skip` characters still belong to the occurrence found last. -/
def occurrencesFrom (w : Text) : Nat → Text → Nat
  | _, [] => 0
  | skip + 1, _ :: r => occurrencesFrom w skip r
  | 0, c :: r =>
    if w.isPrefixOf (c :: r) then 1 + occurrencesFrom w (w.length - 1) r
    else occurrencesFrom w 0 r

/-- How often a non-empty word stands in a text, occurrences not overlapping. -/
def occurrences (w s : Text) : Nat := occurrencesFrom w 0 s

def substituteFrom (old new : Text) : Nat → Text → Text
  | _, [] => []
  | skip + 1, _ :: r => substituteFrom old new skip r
  | 0, c :: r =>
    if old.isPrefixOf (c :: r) then new ++ substituteFrom old new (old.length - 1) r
    else c :: substituteFrom old new 0 r

/-- Every occurrence of `old` becomes `new`; an empty `old` stands between all characters. -/
def substitute (old new s : Text) : Text :=
  if old.isEmpty then new ++ s.flatMap fun c => c :: new else substituteFrom old new 0 s

/-- The pieces between the occurrences of one character; never empty. -/
def pieces (mark : Char) : Text → List Text
  | [] => [[]]
  | c :: r =>
    if c = mark then [] :: pieces mark r
    else match pieces mark r with
      | [] => [[c]]
      | p :: ps => (c :: p) :: ps

def join (between : Text) (parts : List Text) : Text := between.intercalate parts

def dropEndWhile (p : Char → Bool) (s : Text) : Text := (s.reverse.dropWhile p).reverse

def takeEndWhile (p : Char → Bool) (s : Text) : Text := (s.reverse.takeWhile p).reverse

/-- Order by code points, a beginning before what continues it. -/
def ordered (a b : Text) : Bool := !b.lex a fun c d => decide (c < d)

def sorted (xs : List Text) : List Text := Ordered.sort ordered xs

theorem lex_eq_false_of_ordered {a b : Text} (before : ordered a b) :
    (b.lex a fun c d => decide (c < d)) = false := by
  simpa [ordered] using before

theorem ordered_total (a b : Text) : ordered a b || ordered b a := by
  unfold ordered
  rcases List.le_total a b with before | before
  · rw [List.lex_eq_false_iff_ge.2 before]
    rfl
  · rw [List.lex_eq_false_iff_ge.2 before,Bool.or_comm]
    rfl

theorem ordered_trans (a b c : Text) (left : ordered a b) (right : ordered b c) : ordered a c := by
  have first := List.lex_eq_false_iff_ge.1 (lex_eq_false_of_ordered left)
  have second := List.lex_eq_false_iff_ge.1 (lex_eq_false_of_ordered right)
  unfold ordered
  rw [List.lex_eq_false_iff_ge.2 (List.le_trans first second)]
  rfl

theorem ordered_antisymm {a b : Text} (left : ordered a b) (right : ordered b a) : a = b :=
  List.le_antisymm (List.lex_eq_false_iff_ge.1 (lex_eq_false_of_ordered left))
    (List.lex_eq_false_iff_ge.1 (lex_eq_false_of_ordered right))

theorem after?_eq_some_iff {w s rest : Text} : after? w s = some rest ↔ s = w ++ rest := by
  fun_induction after? w s with
  | case1 s => simp [eq_comm]
  | case2 a w => simp
  | case3 w c s ih => simp [ih]
  | case4 a w c s different => simp [Ne.symm different]

theorem cut?_eq_some {w s before rest : Text} (h : cut? w s = some (before, rest)) :
    s = before ++ w ++ rest := by
  induction s generalizing before with
  | nil =>
    obtain ⟨found, held, same⟩ := Option.map_eq_some_iff.1 h
    simp only [Prod.mk.injEq] at same
    rw [after?_eq_some_iff] at held
    simp [← same.1, ← same.2, ← held]
  | cons c r ih =>
    unfold cut? at h
    split at h
    · rename_i found held
      simp only [Option.some.injEq, Prod.mk.injEq] at h
      rw [after?_eq_some_iff] at held
      simp [← h.1, ← h.2, ← held]
    · obtain ⟨⟨left, right⟩, found, same⟩ := Option.map_eq_some_iff.1 h
      simp only [Prod.mk.injEq] at same
      obtain ⟨rfl, rfl⟩ := same
      simp [ih found]

theorem cutLast?_eq_some {w s before rest : Text} (h : cutLast? w s = some (before, rest)) :
    s = before ++ w ++ rest := by
  induction s generalizing before with
  | nil =>
    obtain ⟨found, held, same⟩ := Option.map_eq_some_iff.1 h
    simp only [Prod.mk.injEq] at same
    rw [after?_eq_some_iff] at held
    simp [← same.1, ← same.2, ← held]
  | cons c r ih =>
    unfold cutLast? at h
    split at h
    · rename_i p found
      obtain ⟨left, right⟩ := p
      simp only [Option.some.injEq, Prod.mk.injEq] at h
      obtain ⟨rfl, rfl⟩ := h
      simp [ih found]
    · obtain ⟨found, held, same⟩ := Option.map_eq_some_iff.1 h
      simp only [Prod.mk.injEq] at same
      rw [after?_eq_some_iff] at held
      simp [← same.1, ← same.2, ← held]

theorem pieces_ne_nil (mark : Char) (s : Text) : pieces mark s ≠ [] := by
  cases s with
  | nil => simp [pieces]
  | cons c r =>
    unfold pieces
    split
    · simp
    · split <;> simp

theorem join_pieces (mark : Char) (s : Text) : join [mark] (pieces mark s) = s := by
  unfold join
  induction s with
  | nil => simp [pieces, List.intercalate]
  | cons c r ih =>
    cases held : pieces mark r with
    | nil => exact absurd held (pieces_ne_nil mark r)
    | cons p ps =>
      rw [held] at ih
      unfold pieces
      split
      · rename_i same
        subst same
        simp only [held, List.intercalate, List.intersperse, List.flatten_cons] at ih ⊢
        simp [ih]
      · simp only [held]
        cases ps with
        | nil => simpa [List.intercalate] using ih
        | cons q qs => simpa [List.intercalate, List.intersperse] using ih

end Text

end Recast
