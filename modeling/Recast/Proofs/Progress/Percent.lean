import Mathlib.Tactic.Ring
import Recast.Progress.Percent

/-! Percentages of a count. The quotient is rounded before it is cut off, which does not show where a float
has digits to spare. -/
namespace Recast.Percent

/-- A quotient with a digit to spare is not rounded up to the next whole number. -/
theorem nearest_div {a b k : Nat} (some_ : 0 < b) (spare : b < 2 ^ (k + 1)) :
    nearest (a * 2 ^ k) b / 2 ^ k = a / b := by
  have unit : 0 < 2 ^ k := Nat.two_pow_pos k
  have cut : a * 2 ^ k / b / 2 ^ k = a / b := by
    rw [Nat.div_div_eq_div_mul,Nat.mul_div_mul_right a b unit]
  unfold nearest
  dsimp only
  split
  · exact cut
  · rename_i up
    have half : b ≤ 2 * (a * 2 ^ k % b) := by
      simp only [Bool.or_eq_true,decide_eq_true_eq,Bool.and_eq_true,not_or] at up
      omega
    have least : a / b * 2 ^ k ≤ a * 2 ^ k / b := cut ▸ Nat.div_mul_le_self _ _
    refine Nat.div_eq_of_lt_le (by omega) (Nat.lt_of_not_le fun reached => ?_)
    -- What is missing to the next whole number is at least a unit, and less than half a step.
    have whole : a + 1 ≤ (a / b + 1) * b := by
      rw [Nat.add_mul,Nat.one_mul]
      exact Nat.succ_le_of_lt (Nat.lt_div_mul_add some_)
    have parts : b * (a * 2 ^ k / b) + a * 2 ^ k % b = a * 2 ^ k := Nat.div_add_mod _ _
    have far : (a + 1) * 2 ^ k ≤ b * (a * 2 ^ k / b) + b := calc
      (a + 1) * 2 ^ k ≤ (a / b + 1) * b * 2 ^ k := Nat.mul_le_mul_right _ whole
      _ = (a / b + 1) * 2 ^ k * b := by ring
      _ ≤ (a * 2 ^ k / b + 1) * b := Nat.mul_le_mul_right _ reached
      _ = b * (a * 2 ^ k / b) + b := by ring
    rw [Nat.add_mul,Nat.one_mul] at far
    rw [Nat.pow_succ] at spare
    omega

/-- Numbers of fewer than 48 digits are divided as they are. -/
theorem wholePart_eq {a b : Nat} (small : a < 2 ^ 47) (some_ : 0 < b) : wholePart a b = a / b := by
  unfold wholePart
  split
  · rename_i below
    dsimp only
    have filled : a / b ≠ 0 := Nat.pos_iff_ne_zero.1 (Nat.div_pos below some_)
    have most : 2 ^ Nat.log2 (a / b) * b ≤ a :=
      Nat.le_trans (Nat.mul_le_mul_right b (Nat.log2_self_le filled)) (Nat.div_mul_le_self a b)
    have few : Nat.log2 (a / b) < 47 := by
      refine (Nat.pow_lt_pow_iff_right (a := 2) (by decide)).1 (Nat.lt_of_le_of_lt ?_ small)
      exact Nat.le_trans (Nat.le_mul_of_pos_right _ some_) most
    rw [if_neg (by omega)]
    refine nearest_div some_ (Nat.lt_of_not_le fun large => ?_)
    have beyond : 2 ^ 53 ≤ a := calc
      2 ^ 53 = 2 ^ (Nat.log2 (a / b) + (52 - Nat.log2 (a / b) + 1)) := by congr 1; omega
      _ = 2 ^ Nat.log2 (a / b) * 2 ^ (52 - Nat.log2 (a / b) + 1) := Nat.pow_add _ _ _
      _ ≤ 2 ^ Nat.log2 (a / b) * b := Nat.mul_le_mul_left _ large
      _ ≤ a := most
    omega
  · rename_i above
    rw [Nat.div_eq_of_lt (by omega),if_neg ?_]
    change ¬(b - a) * 2 ^ 54 ≤ b
    omega

/-- How much of a total a count is, in whole percent. -/
theorem of_eq {count : Nat} (few : count < 2 ^ 40) (total : Int) :
    of count total = if total ≤ 0 then 0 else min 100 ((count : Int) * 100 / total) := by
  unfold of
  split
  · rfl
  · rename_i some_
    dsimp only
    rw [if_neg (by omega),Int.natAbs_natCast,wholePart_eq (by omega) (by omega),Int.natCast_ediv,
      Int.toNat_of_nonneg (by omega)]
    rfl

theorem of_zero (total : Int) : of 0 total = 0 := by
  simpa using of_eq (Nat.two_pow_pos 40) total

end Recast.Percent
