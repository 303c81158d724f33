import Recast.Number.Numeral
import Recast.Text.Word

/-! The characters of numerals, and their value when they are read as digits of any script. -/
namespace Recast.Numeral

/-- What holds of every digit holds of the characters of a numeral. -/
theorem forall_mem_ofNat {p : Char → Prop} (single : ∀ d < 10, p (digit d)) (n : Nat) :
    ∀ c ∈ ofNat n, p c := by
  fun_induction ofNat n with
  | case1 n small => simpa using single n small
  | case2 n large ih =>
    intro c member
    rcases List.mem_append.1 member with front | last
    · exact ih c front
    · rw [List.mem_singleton.1 last]
      exact single _ (Nat.mod_lt n (by omega))

theorem notMem_ofInt {c : Char} (minus : c ≠ '-') (single : ∀ d < 10, digit d ≠ c) (i : Int) :
    c ∉ ofInt i := by
  have natural (n : Nat) : c ∉ ofNat n := fun member =>
    forall_mem_ofNat (p := (· ≠ c)) single n c member rfl
  cases i with
  | ofNat n => exact natural n
  | negSucc n => simp [ofInt,minus,natural (n + 1)]

theorem isDigit_ofNat (n : Nat) : ∀ c ∈ ofNat n, Text.isDigit c = true :=
  forall_mem_ofNat (by decide) n

theorem digitsValue_ofNat (n : Nat) : Text.digitsValue (ofNat n) = n := by
  have single : ∀ d < 10, Text.digitValue? (digit d) = some d := by decide
  fun_induction ofNat n with
  | case1 n small => simp [Text.digitsValue,single n small]
  | case2 n large ih =>
    unfold Text.digitsValue at ih ⊢
    rw [List.foldl_append,ih]
    simp only [List.foldl_cons,List.foldl_nil,single _ (Nat.mod_lt n (by omega : 10 > 0)),
      Option.getD_some]
    omega

end Recast.Numeral
