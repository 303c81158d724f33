import Recast.Proofs.Files.Encoding
import Recast.Text.Edit

/-! Replacements that lie apart. To carry them out from the last one to the first is to replace all stretches of
a text at once, wherever its characters take several bytes. -/
namespace Recast.Edit
open Text Encoding

section Order
variable {a b : Edit UInt8} {es : List (Edit UInt8)}

theorem before_iff : before a b = true ↔ b.start < a.start ∨
    a.start = b.start ∧ (b.stop < a.stop ∨ a.stop = b.stop ∧ b.text ≤ a.text) := by
  unfold before
  by_cases together : a.start = b.start
  · rw [if_pos together]
    by_cases close : a.stop = b.stop
    · rw [if_pos close,Bool.not_eq_true',List.lex_eq_false_iff_ge]
      simp [together,close]
    · rw [if_neg close,decide_eq_true_eq]
      simp only [together,close,false_and,or_false,true_and]
      omega
  · rw [if_neg together,decide_eq_true_eq]
    simp only [together,false_and,or_false]
    omega

theorem before_total (a b : Edit UInt8) : before a b || before b a := by
  rw [Bool.or_eq_true,before_iff,before_iff]
  rcases Nat.lt_trichotomy a.start b.start with less | same | more
  · exact .inr (.inl less)
  · rcases Nat.lt_trichotomy a.stop b.stop with less | close | more
    · exact .inr (.inr ⟨same.symm,.inl less⟩)
    · exact (List.le_total a.text b.text).symm.imp (fun texts => .inr ⟨same,.inr ⟨close,texts⟩⟩)
        fun texts => .inr ⟨same.symm,.inr ⟨close.symm,texts⟩⟩
    · exact .inl (.inr ⟨same,.inl more⟩)
  · exact .inl (.inl more)

theorem before_trans (a b c : Edit UInt8) (left : before a b) (right : before b c) : before a c := by
  rw [before_iff] at left right ⊢
  rcases left with first | ⟨first,left⟩
  · exact .inl (by omega)
  · rcases right with second | ⟨second,right⟩
    · exact .inl (by omega)
    · refine .inr ⟨first.trans second,?_⟩
      rcases left with first | ⟨first,left⟩
      · exact .inl (by omega)
      · rcases right with second | ⟨second,right⟩
        · exact .inl (by omega)
        · exact .inr ⟨first.trans second,List.le_trans right left⟩

/-- Two replacements do not overlap. -/
def Apart (a b : Edit UInt8) : Prop := a.stop ≤ b.start ∨ b.stop ≤ a.start

/-- What is replaced in the order of the text. -/
def ascending (es : List (Edit UInt8)) : List (Edit UInt8) := (Ordered.sort before es).reverse

theorem ascending_perm (es : List (Edit UInt8)) : (ascending es).Perm es :=
  (List.reverse_perm _).trans (Ordered.sort_perm before es)

theorem pairwise_ascending (apart : es.Pairwise Apart) (forward : ∀ e ∈ es, e.start ≤ e.stop) :
    (ascending es).Pairwise fun a b => a.stop ≤ b.start := by
  have order : (ascending es).Pairwise fun a b => before b a :=
    List.pairwise_reverse.2 (Ordered.pairwise_sort before_total before_trans es)
  refine Ordered.pairwise_of_apart (ascending_perm es) forward apart (order.imp fun {a b} first => ?_)
  rw [before_iff] at first
  omega

/-- The replacements are carried out from the last one to the first. -/
theorem applyAll_eq (es : List (Edit UInt8)) (bytes : List UInt8) :
    applyAll es bytes = (ascending es).foldr (fun e s => apply s e) bytes := by
  rw [applyAll,ascending,List.foldr_reverse]

theorem ascending_filter (p : Edit UInt8 → Bool) (es : List (Edit UInt8)) :
    (ascending es).filter p = ascending (es.filter p) := by
  rw [ascending,List.filter_reverse,Ordered.filter_sort before_total before_trans,ascending]

end Order

variable {es : List (Edit UInt8)} {place : Nat} {s t : Text}

/-- From `place` on a text holds stretches that are replaced, one after another, and all that stands between
them stays. -/
inductive Replaced : Nat → List (Edit UInt8) → Text → Text → Prop where
  | rest (place : Nat) (s : Text) : Replaced place [] s s
  | replace {place : Nat} {e : Edit UInt8} {es : List (Edit UInt8)} {s t : Text} (gap old new : Text)
      (start : e.start = place + byteLength gap) (stop : e.stop = e.start + byteLength old)
      (text : e.text = encode new) (later : Replaced e.stop es s t) :
      Replaced place (e :: es) (gap ++ old ++ s) (gap ++ new ++ t)

/-- Characters of a text can be replaced where they stand apart. -/
theorem exists_replaced (p : Text) (order : es.Pairwise fun a b => a.stop ≤ b.start)
    (ahead : ∀ e ∈ es, byteLength p ≤ e.start) (whole : ∀ e ∈ es, Whole (p ++ s) e.start e.stop)
    (texts : ∀ e ∈ es, ∃ new, e.text = encode new) : ∃ t, Replaced (byteLength p) es s t := by
  -- `p` is what lies in front of all replacements that are left
  induction es generalizing p s with
  | nil => exact ⟨s,.rest _ _⟩
  | cons e es ih =>
    obtain ⟨above,later⟩ := List.pairwise_cons.1 order
    obtain ⟨before,inside,behind,cut,start,stop⟩ := whole e (by simp)
    obtain ⟨new,text⟩ := texts e (by simp)
    have begins : p <+: before := by
      refine prefix_of_byteLength_le (s := p ++ s) (List.prefix_append _ _) ?_ ?_
      · exact ⟨inside ++ behind,by rw [cut,List.append_assoc]⟩
      · exact start ▸ ahead e (by simp)
    obtain ⟨gap,rfl⟩ := begins
    have tail : s = gap ++ inside ++ behind := by
      simpa only [List.append_assoc,List.append_cancel_left_eq] using cut
    obtain ⟨t,replaced⟩ := ih (s := behind) (p ++ gap ++ inside) later
      (fun f member => stop ▸ above f member)
      (fun f member => by simpa only [cut] using whole f (by simp [member]))
      (fun f member => texts f (by simp [member]))
    refine ⟨gap ++ new ++ t,tail ▸ .replace gap inside new ?_ ?_ text (stop ▸ replaced)⟩
    · rw [start,byteLength_append]
    · rw [stop,byteLength_append,start]

/-- Replacements that put the same characters in the place of some need not be carried out. -/
theorem foldr_filter_encode (changes : Edit UInt8 → Bool) (replaced : Replaced place es s t) (p : Text)
    (here : place = byteLength p)
    (idle : ∀ e ∈ es, changes e = false → ((encode (p ++ s)).take e.stop).drop e.start = e.text) :
    (es.filter changes).foldr (fun e bytes => apply bytes e) (encode (p ++ s)) = encode (p ++ t) := by
  induction replaced generalizing p with
  | rest => rfl
  | @replace place e es s t gap old new start stop text later ih =>
    have begun : e.start = byteLength (p ++ gap) := by rw [start,here,byteLength_append]
    have ended : e.stop = byteLength (p ++ gap ++ old) := by rw [stop,begun,← byteLength_append]
    have regroup : p ++ (gap ++ old ++ s) = p ++ gap ++ old ++ s := by simp only [List.append_assoc]
    rw [regroup] at idle ⊢
    -- what is carried out behind `e` leaves all up to its end as it was, so that its places still count
    have behind := ih (p ++ gap ++ old) ended fun f member => idle f (by simp [member])
    cases changed : changes e with
    | true =>
      rw [List.filter_cons_of_pos changed,List.foldr_cons,behind,apply,begun,ended,text]
      have first : (encode (p ++ gap ++ old ++ t)).take (byteLength (p ++ gap)) = encode (p ++ gap) := by
        rw [List.append_assoc (p ++ gap),take_encode]
      rw [first,drop_encode,← encode_append,← encode_append]
      simp only [List.append_assoc]
    | false =>
      have same : old = new := by
        have cut := idle e (by simp) changed
        rw [begun,ended,slice_encode,text] at cut
        exact encode_injective cut
      rw [List.filter_cons_of_neg (by simp [changed]),behind,same]
      simp only [List.append_assoc]

end Recast.Edit
