import Recast.Source.Balance

/-! Reading the block symbols of a text from left to right, as a relation. It says which symbols are met
on the way to a place, so that what is read before a place can be compared between two texts. -/
namespace Recast.Symbols

/-- From a text the symbols `found` are read, the opening one being tried first, and `rest` is left. -/
inductive Reads (symbols : Symbols) : Text → List Token → Text → Prop where
  | stop (s : Text) : Reads symbols s [] s
  | opening {s rest : Text} {found : List Token} : Reads symbols s found rest →
    Reads symbols (symbols.opening ++ s) (.opening :: found) rest
  | closing {s rest : Text} {found : List Token} : ¬ symbols.opening <+: symbols.closing ++ s →
    Reads symbols s found rest → Reads symbols (symbols.closing ++ s) (.closing :: found) rest
  | other {c : Char} {s rest : Text} {found : List Token} : ¬ symbols.opening <+: c :: s →
    ¬ symbols.closing <+: c :: s → Reads symbols s found rest → Reads symbols (c :: s) found rest

variable {symbols : Symbols}

section Steps

theorem tokensFrom_skip (skip : Nat) (s : Text) :
    symbols.tokensFrom skip s = symbols.tokens (s.drop skip) := by
  induction skip generalizing s with
  | zero => rfl
  | succ skip ih =>
    cases s with
    | nil => rfl
    | cons c r => exact ih r

theorem token?_eq_opening {s : Text} (starts : symbols.opening <+: s) :
    symbols.token? s = some .opening := by
  unfold token? Text.startsWith
  rw [if_pos (List.isPrefixOf_iff_prefix.2 starts)]

theorem token?_eq_closing {s : Text} (first : ¬ symbols.opening <+: s) (starts : symbols.closing <+: s) :
    symbols.token? s = some .closing := by
  unfold token? Text.startsWith
  rw [if_neg (mt List.isPrefixOf_iff_prefix.1 first),if_pos (List.isPrefixOf_iff_prefix.2 starts)]

theorem token?_eq_none {s : Text} (first : ¬ symbols.opening <+: s) (second : ¬ symbols.closing <+: s) :
    symbols.token? s = none := by
  unfold token? Text.startsWith
  rw [if_neg (mt List.isPrefixOf_iff_prefix.1 first),if_neg (mt List.isPrefixOf_iff_prefix.1 second)]

theorem tokens_opening (s : Text) :
    symbols.tokens (symbols.opening ++ s) = .opening :: symbols.tokens s := by
  obtain ⟨c,w,shape⟩ := List.exists_cons_of_ne_nil symbols.opening_ne_nil
  have found : symbols.token? (c :: (w ++ s)) = some .opening := by
    apply token?_eq_opening
    rw [shape,← List.cons_append]
    exact List.prefix_append _ _
  have size : symbols.size .opening - 1 = w.length := by simp [Symbols.size,shape]
  rw [shape,List.cons_append,tokens,tokensFrom,found]
  dsimp only
  rw [size,tokensFrom_skip,List.drop_left]

theorem tokens_closing {s : Text}
    (first : ¬ symbols.opening <+: symbols.closing ++ s) :
    symbols.tokens (symbols.closing ++ s) = .closing :: symbols.tokens s := by
  have found := token?_eq_closing first (List.prefix_append _ s)
  obtain ⟨c,w,shape⟩ := List.exists_cons_of_ne_nil symbols.closing_ne_nil
  have size : symbols.size .closing - 1 = w.length := by simp [Symbols.size,shape]
  rw [shape,List.cons_append] at found ⊢
  rw [tokens,tokensFrom,found]
  dsimp only
  rw [size,tokensFrom_skip,List.drop_left]

theorem tokens_other {c : Char} {s : Text} (first : ¬ symbols.opening <+: c :: s)
    (second : ¬ symbols.closing <+: c :: s) : symbols.tokens (c :: s) = symbols.tokens s := by
  rw [tokens,tokensFrom,token?_eq_none first second]
  rfl

/-- What holds of the empty text, and goes over from what is left behind a symbol, or behind a character
at which none begins, holds of every text. -/
theorem reading_induction (symbols : Symbols) {motive : Text → Prop} (nil : motive [])
    (opening : ∀ s, motive s → motive (symbols.opening ++ s))
    (closing : ∀ s, ¬ symbols.opening <+: symbols.closing ++ s → motive s → motive (symbols.closing ++ s))
    (other : ∀ c s, ¬ symbols.opening <+: c :: s → ¬ symbols.closing <+: c :: s → motive s →
      motive (c :: s)) (s : Text) : motive s := by
  induction size : s.length using Nat.strongRecOn generalizing s with
  | ind n ih =>
    by_cases first : symbols.opening <+: s
    · obtain ⟨r,rfl⟩ := first
      have filled := List.length_pos_iff.2 symbols.opening_ne_nil
      rw [List.length_append] at size
      exact opening r (ih r.length (by omega) r rfl)
    by_cases second : symbols.closing <+: s
    · obtain ⟨r,rfl⟩ := second
      have filled := List.length_pos_iff.2 symbols.closing_ne_nil
      rw [List.length_append] at size
      exact closing r first (ih r.length (by omega) r rfl)
    cases s with
    | nil => exact nil
    | cons c r => exact other c r first second (ih r.length (by simp [← size]) r rfl)

end Steps

namespace Reads

variable {s rest : Text} {found : List Token}

theorem suffix (reads : symbols.Reads s found rest) : rest <:+ s := by
  induction reads with
  | stop s => exact List.suffix_refl s
  | opening _ ih => exact ih.trans (List.suffix_append _ _)
  | closing _ _ ih => exact ih.trans (List.suffix_append _ _)
  | other _ _ _ ih => exact ih.trans (List.suffix_cons _ _)

/-- Read on from what is left, and the symbols of the whole text are found. -/
theorem tokens_eq (reads : symbols.Reads s found rest) :
    symbols.tokens s = found ++ symbols.tokens rest := by
  induction reads with
  | stop s => rfl
  | opening _ ih => rw [tokens_opening,ih,List.cons_append]
  | closing first _ ih => rw [tokens_closing first,ih,List.cons_append]
  | other first second _ ih => rw [tokens_other first second,ih]

theorem of_opening (reads : symbols.Reads (symbols.opening ++ s) found rest) :
    (found = [] ∧ rest = symbols.opening ++ s) ∨
      ∃ later, found = .opening :: later ∧ symbols.Reads s later rest := by
  generalize whole : symbols.opening ++ s = t at reads
  cases reads with
  | stop => exact .inl ⟨rfl,rfl⟩
  | opening later =>
    rw [List.append_cancel_left whole]
    exact .inr ⟨_,rfl,later⟩
  | closing first _ => exact absurd ⟨s,whole⟩ first
  | other first _ _ => exact absurd ⟨s,whole⟩ first

theorem of_closing (unopened : ¬ symbols.opening <+: symbols.closing ++ s)
    (reads : symbols.Reads (symbols.closing ++ s) found rest) :
    (found = [] ∧ rest = symbols.closing ++ s) ∨
      ∃ later, found = .closing :: later ∧ symbols.Reads s later rest := by
  generalize whole : symbols.closing ++ s = t at reads unopened
  cases reads with
  | stop => exact .inl ⟨rfl,rfl⟩
  | opening _ => exact absurd (List.prefix_append _ _) unopened
  | closing _ later =>
    rw [List.append_cancel_left whole]
    exact .inr ⟨_,rfl,later⟩
  | other _ second _ => exact absurd ⟨s,whole⟩ second

theorem of_other {c : Char} (unopened : ¬ symbols.opening <+: c :: s)
    (unclosed : ¬ symbols.closing <+: c :: s) (reads : symbols.Reads (c :: s) found rest) :
    (found = [] ∧ rest = c :: s) ∨ symbols.Reads s found rest := by
  generalize whole : c :: s = t at reads unopened unclosed
  cases reads with
  | stop => exact .inl ⟨rfl,rfl⟩
  | opening _ => exact absurd (List.prefix_append _ _) unopened
  | closing _ _ => exact absurd (List.prefix_append _ _) unclosed
  | other _ _ later =>
    obtain ⟨rfl,rfl⟩ := List.cons.inj whole
    exact .inr later

/-- The same symbols are read when something else follows, unless this makes a symbol begin where none
did. -/
theorem exchange (reads : symbols.Reads s found rest) : ∃ front, s = front ++ rest ∧
    ∀ next, (∀ y, y <:+ front → y ≠ [] → (symbols.opening <+: y ++ next → symbols.opening <+: y ++ rest) ∧
      (symbols.closing <+: y ++ next → symbols.closing <+: y ++ rest)) →
      symbols.Reads (front ++ next) found next := by
  induction reads with
  | stop s => exact ⟨[],rfl,fun next _ => .stop next⟩
  | opening _ ih =>
    obtain ⟨front,rfl,again⟩ := ih
    refine ⟨symbols.opening ++ front,(List.append_assoc _ _ _).symm,fun next alike => ?_⟩
    rw [List.append_assoc]
    exact .opening (again next fun y inside => alike y (inside.trans (List.suffix_append _ _)))
  | @closing s rest found first _ ih =>
    obtain ⟨front,rfl,again⟩ := ih
    refine ⟨symbols.closing ++ front,(List.append_assoc _ _ _).symm,fun next alike => ?_⟩
    have later := again next fun y inside => alike y (inside.trans (List.suffix_append _ _))
    have here := alike _ (List.suffix_refl _) (List.append_ne_nil_of_left_ne_nil symbols.closing_ne_nil front)
    rw [List.append_assoc,List.append_assoc] at here
    rw [List.append_assoc]
    exact .closing (mt here.1 first) later
  | @other c s rest found first second _ ih =>
    obtain ⟨front,rfl,again⟩ := ih
    refine ⟨c :: front,rfl,fun next alike => ?_⟩
    have here := alike (c :: front) (List.suffix_refl _) (List.cons_ne_nil _ _)
    exact .other (mt here.1 first) (mt here.2 second)
      (again next fun y inside => alike y (inside.trans (List.suffix_cons _ _)))

end Reads

theorem reads_tokens (s : Text) : symbols.Reads s (symbols.tokens s) [] := by
  induction s using reading_induction symbols with
  | nil => exact .stop []
  | opening s ih =>
    rw [tokens_opening]
    exact .opening ih
  | closing s first ih =>
    rw [tokens_closing first]
    exact .closing first ih
  | other c s first second ih =>
    rw [tokens_other first second]
    exact .other first second ih

/-- The symbols of a text are those that are read on the way to its end. -/
theorem reads_iff {s : Text} {found : List Token} : symbols.Reads s found [] ↔ found = symbols.tokens s := by
  constructor
  · intro reads
    have whole := reads.tokens_eq
    rw [whole]
    exact (List.append_nil found).symm
  · rintro rfl
    exact reads_tokens s

end Recast.Symbols
