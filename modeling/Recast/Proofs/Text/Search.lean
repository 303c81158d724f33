import Recast.Text.Blank

/-! Where a word first stands in a text. A word whose first character never comes back inside it
cannot begin in the text before one of its occurrences and reach into it, so that the search finds
the place where the word was put. -/
namespace Recast.Text

/-- The word stands nowhere in the text. -/
def Lacks (w s : Text) : Prop := ¬ w <:+: s

instance (w s : Text) : Decidable (Lacks w s) := inferInstanceAs (Decidable (¬ w <:+: s))

theorem Lacks.of_within {w s t : Text} (lacking : Lacks w t) (inside : s <:+: t) : Lacks w s :=
  fun found => lacking (found.trans inside)

theorem Lacks.of_word {v w s : Text} (lacking : Lacks v s) (inside : v <:+: w) : Lacks w s :=
  fun found => lacking (inside.trans found)

theorem lacks_of_notMem {w s : Text} {c : Char} (member : c ∈ w) (absent : c ∉ s) : Lacks w s :=
  fun found => absent (found.sublist.subset member)

/-- Nothing that the left part ends with begins the word. -/
theorem Lacks.append_of_head {r s t : Text} {c : Char} (absent : c ∉ s)
    (right : Lacks (c :: r) t) : Lacks (c :: r) (s ++ t) := by
  intro found
  rcases List.infix_append_iff_ne_nil.1 found with inside | inside | ⟨front,back,some_,_,same,ends,_⟩
  · exact absent (inside.sublist.subset (by simp))
  · exact right inside
  · cases front with
    | nil => exact some_ rfl
    | cons d front =>
      cases List.cons.inj same with
      | intro first _ => exact absent (ends.sublist.subset (by simp [first]))

/-- The right part begins with a character that the word does not have. -/
theorem Lacks.append_of_fresh {w s t : Text} {c : Char} (fresh : c ∉ w) (left : Lacks w s)
    (right : Lacks w (c :: t)) : Lacks w (s ++ c :: t) := by
  intro found
  rcases List.infix_append_iff_ne_nil.1 found with inside | inside | ⟨front,back,_,some_,same,_,starts⟩
  · exact left inside
  · exact right inside
  · rcases List.prefix_cons_iff.1 starts with rfl | ⟨rest,rfl,_⟩
    · exact some_ rfl
    · exact fresh (by simp [same])

/-- Between the two parts stands a character that the word does not have. -/
theorem Lacks.append_around {r s t : Text} {c d : Char} (fresh : d ∉ c :: r)
    (left : Lacks (c :: r) s) (right : Lacks (c :: r) t) : Lacks (c :: r) (s ++ d :: t) := by
  have other : c ∉ [d] := fun same => fresh (by rw [← List.mem_singleton.1 same]; simp)
  exact left.append_of_fresh fresh (right.append_of_head other)

/-- The left part ends with the last character of the word, which stands nowhere else in it. -/
theorem Lacks.append_of_last {v s t : Text} {c : Char} (once : c ∉ v)
    (left : Lacks (v ++ [c]) (s ++ [c])) (right : Lacks (v ++ [c]) t) :
    Lacks (v ++ [c]) ((s ++ [c]) ++ t) := by
  intro found
  rcases List.infix_append_iff_ne_nil.1 found with inside | inside | ⟨front,back,begun,some_,same,ends,_⟩
  · exact left inside
  · exact right inside
  · have member : c ∈ front := by
      rcases List.suffix_concat_iff.1 ends with rfl | ⟨rest,rfl,_⟩
      · exact absurd rfl begun
      · simp
    have inner : front <+: v := by
      rcases List.prefix_concat_iff.1 (⟨back,same.symm⟩ : front <+: v ++ [c]) with whole | inner
      · rw [whole] at same
        exact absurd (List.append_right_eq_self.1 same.symm) some_
      · exact inner
    exact once (inner.sublist.subset member)

/-- One more character does not end the word. -/
theorem Lacks.concat {v s : Text} {c d : Char} (other : d ≠ c) (left : Lacks (v ++ [c]) s) :
    Lacks (v ++ [c]) (s ++ [d]) := by
  intro found
  rcases List.infix_concat_iff.1 found with ends | inside
  · rcases List.suffix_concat_iff.1 ends with none_ | ⟨rest,same,_⟩
    · simp at none_
    · exact other (List.append_inj_right' same rfl |> List.singleton_inj.1).symm
  · exact left inside

/-- A word does not reach beyond a character that it does not have. -/
theorem prefix_of_fresh {w s t : Text} {c : Char} (fresh : c ∉ w) (starts : w <+: s ++ c :: t) :
    w <+: s := by
  obtain ⟨rest,same⟩ := starts
  rcases List.append_eq_append_iff.1 same with ⟨more,whole,_⟩ | ⟨past,word,tail⟩
  · exact ⟨more,whole.symm⟩
  · cases past with
    | nil => exact ⟨[],by simpa using word⟩
    | cons d past =>
      have first : c = d := by simpa using congrArg List.head? tail
      exact absurd (by simp [word,first]) fresh

theorem after?_eq_none {w s : Text} (h : ¬ w <+: s) : after? w s = none := by
  cases held : after? w s with
  | none => rfl
  | some rest => exact absurd ⟨rest,(after?_eq_some_iff.1 held).symm⟩ h

theorem cut?_eq_none_iff {w s : Text} : cut? w s = none ↔ Lacks w s := by
  induction s with
  | nil =>
    unfold cut? Lacks
    cases w <;> simp [after?]
  | cons c r ih =>
    unfold cut?
    cases held : after? w (c :: r) with
    | some rest =>
      have found : w <+: c :: r := ⟨rest,(after?_eq_some_iff.1 held).symm⟩
      simpa [Lacks] using found.isInfix
    | none =>
      have unmatched : ¬ w <+: c :: r := by
        rintro ⟨rest,same⟩
        rw [after?_eq_some_iff.2 same.symm] at held
        cases held
      simp [ih,Lacks,List.infix_cons_iff,unmatched]

theorem occurs_eq_true_iff {w s : Text} : occurs w s = true ↔ w <:+: s := by
  unfold occurs
  rw [Option.isSome_iff_ne_none,ne_eq,cut?_eq_none_iff]
  exact Classical.not_not

/-- A text without the word, followed by the word, does not begin with it. -/
private theorem not_prefix_before {r s t : Text} {c d : Char} (once : c ∉ r)
    (lacking : Lacks (c :: r) (d :: s)) : ¬ (c :: r) <+: (d :: s) ++ ((c :: r) ++ t) := by
  rintro ⟨rest,same⟩
  rcases List.append_eq_append_iff.1 same with ⟨more,whole,_⟩ | ⟨past,word,tail⟩
  · exact lacking ⟨[],more,by simp [whole]⟩
  · cases past with
    | nil => exact lacking ⟨[],[],by simpa using word⟩
    | cons e past =>
      have first : c = e := by simpa using congrArg List.head? tail
      have inner : r = s ++ e :: past := by simpa using congrArg List.tail word
      exact once (by simp [inner,first])

/-- The search finds the word behind a text without it. -/
theorem cut?_append {r s : Text} {c : Char} (once : c ∉ r) (lacking : Lacks (c :: r) s) (t : Text) :
    cut? (c :: r) (s ++ ((c :: r) ++ t)) = some (s,t) := by
  induction s with
  | nil =>
    rw [List.nil_append,List.cons_append,cut?]
    rw [after?_eq_some_iff.2 (List.cons_append ..).symm]
  | cons d s ih =>
    have later := ih (lacking.of_within (List.infix_cons (List.infix_refl s)))
    have here := after?_eq_none (not_prefix_before (t := t) once lacking)
    rw [List.cons_append] at here ⊢
    rw [cut?,here,later]
    rfl

end Recast.Text
