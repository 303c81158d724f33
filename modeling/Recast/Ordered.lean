/-!
Lists in an order, by insertion. What is equal stays as it was, and the order may be looked up by
evaluation.
-/

namespace Recast.Ordered

variable {α : Type}

/-- Puts an element before the first one that it does not come after. -/
def insert (le : α → α → Bool) (a : α) : List α → List α
  | [] => [a]
  | b :: rest => if le a b then a :: b :: rest else b :: insert le a rest

def sort (le : α → α → Bool) : List α → List α
  | [] => []
  | a :: rest => insert le a (sort le rest)

theorem insert_perm (le : α → α → Bool) (a : α) (xs : List α) : (insert le a xs).Perm (a :: xs) := by
  induction xs with
  | nil => exact .refl _
  | cons b rest ih =>
    unfold insert
    split
    · exact .refl _
    · exact (ih.cons b).trans (.swap a b rest)

theorem sort_perm (le : α → α → Bool) (xs : List α) : (sort le xs).Perm xs := by
  induction xs with
  | nil => exact .refl _
  | cons a rest ih => exact (insert_perm le a _).trans (ih.cons a)

variable {le : α → α → Bool}

theorem insert_eq_cons {a : α} {xs : List α} (first : ∀ b ∈ xs, le a b) : insert le a xs = a :: xs := by
  cases xs with
  | nil => rfl
  | cons b rest => rw [insert, if_pos (first b (by simp))]

/-- A list that stands sorted stays as it is. -/
theorem sort_eq_self {xs : List α} (sorted : xs.Pairwise fun a b => le a b) : sort le xs = xs := by
  induction xs with
  | nil => rfl
  | cons a rest ih =>
    obtain ⟨first, later⟩ := List.pairwise_cons.1 sorted
    rw [sort, ih later, insert_eq_cons first]

section
variable {start stop : α → Nat} {xs ys : List α}

/-- Stretches that do not overlap follow one another where they stand in order. -/
theorem pairwise_of_apart (perm : ys.Perm xs) (forward : ∀ a ∈ xs, start a ≤ stop a)
    (apart : xs.Pairwise fun a b => stop a ≤ start b ∨ stop b ≤ start a)
    (order : ys.Pairwise fun a b => start a < start b ∨ start a = start b ∧ stop a ≤ stop b) :
    ys.Pairwise fun a b => stop a ≤ start b := by
  have parted := perm.symm.pairwise apart fun {_ _} => Or.symm
  refine (order.and parted).imp_of_mem fun {a b} left right ⟨before, part⟩ => ?_
  have first := forward a (perm.mem_iff.1 left)
  have second := forward b (perm.mem_iff.1 right)
  omega

end

variable {p : α → Bool}

theorem filter_insert_of_neg {a : α} (gone : ¬p a) (xs : List α) :
    (insert le a xs).filter p = xs.filter p := by
  induction xs with
  | nil => rw [insert, List.filter_cons_of_neg gone]
  | cons b rest ih =>
    unfold insert
    split
    · rw [List.filter_cons_of_neg gone]
    · rw [List.filter_cons, List.filter_cons, ih]

section
variable (trans : ∀ a b c, le a b → le b c → le a c)
include trans

theorem filter_insert_of_pos {a : α} (kept : p a) {xs : List α}
    (sorted : xs.Pairwise fun a b => le a b) :
    (insert le a xs).filter p = insert le a (xs.filter p) := by
  induction xs with
  | nil => rw [insert, List.filter_cons_of_pos kept, List.filter_nil, insert]
  | cons b rest ih =>
    obtain ⟨first, later⟩ := List.pairwise_cons.1 sorted
    by_cases before : le a b
    · have inFront : ∀ c ∈ (b :: rest).filter p, le a c := by
        intro c member
        rcases List.mem_cons.1 (List.mem_filter.1 member).1 with rfl | inside
        · exact before
        · exact trans a b c before (first c inside)
      rw [insert, if_pos before, List.filter_cons_of_pos kept, insert_eq_cons inFront]
    · rw [insert, if_neg before]
      by_cases keeps : p b
      · rw [List.filter_cons_of_pos keeps, List.filter_cons_of_pos keeps, ih later, insert, if_neg before]
      · rw [List.filter_cons_of_neg keeps, List.filter_cons_of_neg keeps, ih later]

end

variable (total : ∀ a b, le a b || le b a) (trans : ∀ a b c, le a b → le b c → le a c)
include total trans

theorem pairwise_insert {a : α} {xs : List α} (sorted : xs.Pairwise fun a b => le a b) :
    (insert le a xs).Pairwise fun a b => le a b := by
  induction xs with
  | nil => exact List.pairwise_singleton _ _
  | cons b rest ih =>
    obtain ⟨first, later⟩ := List.pairwise_cons.1 sorted
    unfold insert
    split
    · rename_i before
      refine List.pairwise_cons.2 ⟨fun c member => ?_, sorted⟩
      rcases List.mem_cons.1 member with rfl | inside
      · exact before
      · exact trans a b c before (first c inside)
    · rename_i behind
      refine List.pairwise_cons.2 ⟨fun c member => ?_, ih later⟩
      rcases List.mem_cons.1 ((insert_perm le a rest).mem_iff.1 member) with rfl | inside
      · have either := total c b
        simp only [Bool.or_eq_true] at either
        exact either.resolve_left behind
      · exact first c inside

/-- In a total order the list stands sorted. -/
theorem pairwise_sort (xs : List α) : (sort le xs).Pairwise fun a b => le a b := by
  induction xs with
  | nil => exact .nil
  | cons a rest ih => exact pairwise_insert total trans ih

/-- It is the same to leave elements out before the rest is sorted or after that. -/
theorem filter_sort (p : α → Bool) (xs : List α) : (sort le xs).filter p = sort le (xs.filter p) := by
  induction xs with
  | nil => rfl
  | cons a rest ih =>
    by_cases kept : p a
    · rw [List.filter_cons_of_pos kept, sort, sort,
        filter_insert_of_pos trans kept (pairwise_sort total trans rest), ih]
    · rw [List.filter_cons_of_neg kept, sort, filter_insert_of_neg kept, ih]

end Recast.Ordered
