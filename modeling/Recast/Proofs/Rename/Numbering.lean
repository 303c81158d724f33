import Mathlib.Data.Finset.Card
import Mathlib.Data.Finset.Dedup
import Mathlib.Order.Interval.Finset.Nat
import Recast.Number.Numeral
import Recast.Rename.Namer

/-! The search for a number that makes a name free. It takes one number after the other for as long
as the names that they make are refused, and each output, new name and old name of an index refuses
one number at most. So it comes to an end, and the bound that it is given never cuts it short. -/
namespace Recast.Namer

/-- A search without a bound: from one number on it comes to its end at another. -/
inductive Ends (refused : Text → Bool) (name : Text) : Nat → Nat → Prop
  | free {i : Nat} : refused (numbered name i) = false → Ends refused name i i
  | next {i j : Nat} : refused (numbered name i) = true → Ends refused name (i + 1) j →
      Ends refused name i j

section
variable {refused : Text → Bool} {name : Text} {i j k : Nat}

theorem Ends.untaken (ends : Ends refused name i j) : refused (numbered name j) = false := by
  induction ends with
  | free held => exact held
  | next _ _ ih => exact ih

theorem Ends.start_le (ends : Ends refused name i j) : i ≤ j := by
  induction ends with
  | free _ => exact Nat.le_refl _
  | next _ _ ih => exact Nat.le_of_succ_le ih

/-- A search ends no later than at the first number that it could end at. -/
theorem exists_ends (above : i ≤ k) (free : refused (numbered name k) = false) :
    ∃ j, j ≤ k ∧ Ends refused name i j := by
  induction above using Nat.decreasingInduction with
  | self => exact ⟨k,Nat.le_refl k,.free free⟩
  | of_succ i below ih =>
    obtain ⟨j,least,ends⟩ := ih
    -- A free number ends the search here, however far on the given one lies.
    cases held : refused (numbered name i) with
    | false => exact ⟨i,Nat.le_of_lt below,.free held⟩
    | true => exact ⟨j,least,.next held ends⟩

/-- A bound that lies behind the end of the search does not matter. -/
theorem firstFree_of_ends (ends : Ends refused name i j) {fuel : Nat} (enough : j ≤ i + fuel) :
    firstFree refused name i fuel = numbered name j := by
  induction ends generalizing fuel with
  | @free i held =>
    cases fuel with
    | zero => rfl
    | succ fuel => simp [firstFree,held]
  | @next i j held later ih =>
    cases fuel with
    | zero =>
      have past := later.start_le
      omega
    | succ fuel =>
      rw [firstFree,if_pos held]
      apply ih
      omega

end

theorem numbered_injective (name : Text) : Function.Injective (numbered name) := by
  intro i j same
  apply Numeral.ofNat_injective
  simpa [numbered] using same

/-- The outputs and the new names of an index, and the old names of a project. -/
def claims (index : NameIndex) (olds : List Text) : Nat :=
  (index.all.map Entry.output).toFinset.card + (index.all.map Entry.new).toFinset.card +
    olds.toFinset.card

theorem claims_le_bound (index : NameIndex) (olds : List Text) : claims index olds ≤ bound index olds := by
  have outputs := (index.all.map Entry.output).toFinset_card_le
  have news := (index.all.map Entry.new).toFinset_card_le
  have former := olds.toFinset_card_le
  rw [List.length_map] at outputs news
  unfold claims bound
  omega

/-- Names that are all different from each other cannot refuse more numbers than they are. -/
theorem card_refused (texts : List Text) (numbers : Finset Nat) {f : Nat → Text}
    (apart : Function.Injective f) : (numbers.filter fun i => f i ∈ texts).card ≤ texts.toFinset.card := by
  apply Finset.card_le_card_of_injOn f
  · intro i member
    simpa using (Finset.mem_filter.1 member).2
  · exact apart.injOn

variable {n : Namer}

theorem taken_eq_true {index : NameIndex} {olds : List Text} {source old name : Text}
    (refused : n.taken index olds source old name = true) :
    n.outputOf source name ∈ index.all.map Entry.output ∨ name ∈ index.all.map Entry.new ∨
      name ∈ olds := by
  simp only [taken,Bool.or_eq_true,Bool.and_eq_true,NameIndex.hasOutput,NameIndex.hasNew,
    List.any_eq_true,List.contains_iff_mem,beq_iff_eq] at refused
  rcases refused with ⟨e,member,same⟩ | ⟨_,former | ⟨e,member,same⟩⟩
  · exact .inl (List.mem_map.2 ⟨e,member,same⟩)
  · exact .inr (.inr former)
  · exact .inr (.inl (List.mem_map.2 ⟨e,member,same⟩))

/-- Among the first numbers, one more than there are claims, one is free. -/
theorem exists_free (index : NameIndex) (olds : List Text) (source old name : Text)
    (counts : Function.Injective fun i => n.outputOf source (numbered name i)) :
    ∃ k, 1 ≤ k ∧ k ≤ claims index olds + 1 ∧ n.taken index olds source old (numbered name k) = false := by
  -- Otherwise all of these numbers are refused, and the claims cannot refuse that many.
  by_contra none_
  have all : Finset.Icc 1 (claims index olds + 1) ⊆
      (Finset.Icc 1 (claims index olds + 1)).filter (fun i =>
        n.outputOf source (numbered name i) ∈ index.all.map Entry.output) ∪
      ((Finset.Icc 1 (claims index olds + 1)).filter (fun i => numbered name i ∈ index.all.map Entry.new) ∪
        (Finset.Icc 1 (claims index olds + 1)).filter fun i => numbered name i ∈ olds) := by
    intro i member
    obtain ⟨above,below⟩ := Finset.mem_Icc.1 member
    have refused : n.taken index olds source old (numbered name i) = true := by
      apply Bool.of_not_eq_false
      intro free
      exact none_ ⟨i,above,below,free⟩
    simp only [Finset.mem_union,Finset.mem_filter,member,true_and]
    exact taken_eq_true refused
  have size := (Finset.card_le_card all).trans (Finset.card_union_le _ _)
  have rest := Finset.card_union_le
    ((Finset.Icc 1 (claims index olds + 1)).filter fun i => numbered name i ∈ index.all.map Entry.new)
    ((Finset.Icc 1 (claims index olds + 1)).filter fun i => numbered name i ∈ olds)
  have outputs := card_refused (index.all.map Entry.output) (Finset.Icc 1 (claims index olds + 1)) counts
  have news := card_refused (index.all.map Entry.new) (Finset.Icc 1 (claims index olds + 1))
    (numbered_injective name)
  have former := card_refused olds (Finset.Icc 1 (claims index olds + 1)) (numbered_injective name)
  rw [Nat.card_Icc] at size
  unfold claims at size rest outputs news former
  omega

/-- The search for the name of a file ends after one more candidate than there are claims at most,
and a name that is taken gets the number that it ends at. -/
theorem chosen_ends (index : NameIndex) (olds : List Text) (source old name : Text)
    (counts : Function.Injective fun i => n.outputOf source (numbered name i)) :
    ∃ i, Ends (n.taken index olds source old) name 1 i ∧ i ≤ claims index olds + 1 ∧
      n.chosen index olds source old name =
        if n.taken index olds source old name then numbered name i else name := by
  obtain ⟨k,above,below,free⟩ := exists_free index olds source old name counts
  obtain ⟨i,least,ends⟩ := exists_ends above free
  have enough := claims_le_bound index olds
  have found : firstFree (n.taken index olds source old) name 1 (bound index olds) = numbered name i := by
    apply firstFree_of_ends ends
    omega
  refine ⟨i,ends,by omega,?_⟩
  unfold chosen
  rw [found]

end Recast.Namer
