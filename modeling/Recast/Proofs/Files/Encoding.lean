import Mathlib.Data.List.Infix
import Recast.Text.Bytes

/-! Texts and their bytes. What is read back from the bytes of a text is the text, and a place in the bytes
that lies between two characters is a number of characters. -/
namespace Recast.Encoding
open Text

section Char

/-- A byte within the bounds goes on with the character that is under way. -/
theorem decodeFrom_some {n : Begun} {b : Nat} (low : n.low ≤ b) (high : b ≤ n.high) (small : b < 256)
    (r : List UInt8) : decodeFrom (some n) (UInt8.ofNat b :: r) =
      if n.left ≤ 1 then some (Char.ofNat (n.value * 64 + (b - 0x80))) :: decodeFrom none r
      else decodeFrom (some { left := n.left - 1, value := n.value * 64 + (b - 0x80) }) r := by
  have same : (UInt8.ofNat b).toNat = b := UInt8.toNat_ofNat_of_lt' small
  rw [decodeFrom,same,if_pos (by simp [low,high])]

theorem decodeFrom_begun {n : Begun} {b : Nat} (leads : lead b = .begun n) (small : b < 256)
    (r : List UInt8) : decodeFrom none (UInt8.ofNat b :: r) = decodeFrom (some n) r := by
  have same : (UInt8.ofNat b).toNat = b := UInt8.toNat_ofNat_of_lt' small
  rw [decodeFrom,same,leads]

/-- The numbers of characters that take three bytes; those of surrogates are left out. -/
theorem lead_three {v : Nat} (low : 0x800 ≤ v) (high : v < 0x10000) (valid : v < 0xD800 ∨ 0xDFFF < v) :
    ∃ n, lead (v / 4096 % 16 + 224) = .begun n ∧ n.left = 2 ∧ n.value = v / 4096 ∧
      n.low ≤ v / 64 % 64 + 128 ∧ v / 64 % 64 + 128 ≤ n.high := by
  unfold lead
  rw [if_neg (by omega),if_neg (by omega),if_neg (by omega)]
  by_cases first : v / 4096 % 16 + 224 = 0xE0
  · rw [if_pos first]
    exact ⟨_,rfl,rfl,by simp only; omega,by simp only; omega,by simp only; omega⟩
  · rw [if_neg first]
    by_cases before : v / 4096 % 16 + 224 = 0xED
    · rw [if_pos before]
      exact ⟨_,rfl,rfl,by simp only; omega,by simp only; omega,by simp only; omega⟩
    · rw [if_neg before,if_pos (by omega)]
      exact ⟨_,rfl,rfl,by simp only; omega,by simp only; omega,by simp only; omega⟩

theorem lead_four {v : Nat} (low : 0x10000 ≤ v) (high : v < 0x110000) :
    ∃ n, lead (v / 262144 % 8 + 240) = .begun n ∧ n.left = 3 ∧ n.value = v / 262144 ∧
      n.low ≤ v / 4096 % 64 + 128 ∧ v / 4096 % 64 + 128 ≤ n.high := by
  unfold lead
  rw [if_neg (by omega),if_neg (by omega),if_neg (by omega),if_neg (by omega),if_neg (by omega),
    if_neg (by omega)]
  by_cases first : v / 262144 % 8 + 240 = 0xF0
  · rw [if_pos first]
    exact ⟨_,rfl,rfl,by simp only; omega,by simp only; omega,by simp only; omega⟩
  · rw [if_neg first]
    by_cases within : v / 262144 % 8 + 240 < 0xF4
    · rw [if_pos within]
      exact ⟨_,rfl,rfl,by simp only; omega,by simp only; omega,by simp only; omega⟩
    · rw [if_neg within,if_pos (by omega)]
      exact ⟨_,rfl,rfl,by simp only; omega,by simp only; omega,by simp only; omega⟩

/-- The bytes of a character are read as this character. -/
theorem decodeFrom_char (c : Char) (r : List UInt8) :
    decodeFrom none (String.utf8EncodeChar c ++ r) = some c :: decodeFrom none r := by
  have valid : c.val.toNat < 0xD800 ∨ 0xDFFF < c.val.toNat ∧ c.val.toNat < 0x110000 := c.valid
  have back : Char.ofNat c.val.toNat = c := Char.ofNat_toNat c
  unfold String.utf8EncodeChar
  generalize c.val.toNat = v at *
  dsimp only
  by_cases one : v ≤ 0x7F
  · have same : (UInt8.ofNat v).toNat = v := UInt8.toNat_ofNat_of_lt' (show v < 256 by omega)
    have leads : lead v = .whole c := by rw [lead,if_pos (by omega),back]
    rw [if_pos one,List.singleton_append,decodeFrom,same,leads]
  · rw [if_neg one]
    by_cases two : v ≤ 0x7FF
    · have leads : lead (v / 64 % 32 + 192) = .begun { left := 1, value := v / 64 % 32 + 192 - 0xC0 } := by
        unfold lead
        rw [if_neg (by omega),if_neg (by omega),if_pos (by omega)]
      have whole : (v / 64 % 32 + 192 - 0xC0) * 64 + (v % 64 + 128 - 0x80) = v := by omega
      rw [if_pos two,List.cons_append,List.singleton_append,decodeFrom_begun leads (by omega),
        decodeFrom_some (by simp only; omega) (by simp only; omega) (by omega),if_pos (Nat.le_refl 1),whole,back]
    · rw [if_neg two]
      by_cases three : v ≤ 0xFFFF
      · obtain ⟨n,leads,left,value,low,high⟩ := lead_three (by omega) (by omega) (valid.imp_right And.left)
        have whole : (n.value * 64 + (v / 64 % 64 + 128 - 0x80)) * 64 + (v % 64 + 128 - 0x80) = v := by omega
        rw [if_pos three,List.cons_append,List.cons_append,List.singleton_append,
          decodeFrom_begun leads (by omega),decodeFrom_some low high (by omega),if_neg (by omega),
          decodeFrom_some (by simp only; omega) (by simp only; omega) (by omega),
          if_pos (by simp only; omega)]
        dsimp only
        rw [whole,back]
      · obtain ⟨n,leads,left,value,low,high⟩ := lead_four (show 0x10000 ≤ v by omega) (by omega)
        have whole : ((n.value * 64 + (v / 4096 % 64 + 128 - 0x80)) * 64 + (v / 64 % 64 + 128 - 0x80)) * 64 +
            (v % 64 + 128 - 0x80) = v := by omega
        rw [if_neg three,List.cons_append,List.cons_append,List.cons_append,List.singleton_append,
          decodeFrom_begun leads (by omega),decodeFrom_some low high (by omega),if_neg (by omega),
          decodeFrom_some (by simp only; omega) (by simp only; omega) (by omega),
          if_neg (by simp only; omega),
          decodeFrom_some (by simp only; omega) (by simp only; omega) (by omega),
          if_pos (by simp only; omega)]
        dsimp only
        rw [whole,back]

end Char

section Text
variable {s t p q : Text}

theorem encode_append (s t : Text) : encode (s ++ t) = encode s ++ encode t := List.flatMap_append

theorem decode_encode (s : Text) : decode (encode s) = s.map some := by
  unfold decode encode
  induction s with
  | nil => rfl
  | cons c s ih => rw [List.flatMap_cons,decodeFrom_char,ih,List.map_cons]

theorem readable_encode (s : Text) : readable (encode s) = s := by
  rw [readable,decode_encode,List.filterMap_map]
  exact List.filterMap_some

theorem strict?_encode (s : Text) : strict? (encode s) = some s := by
  rw [strict?,decode_encode]
  induction s with
  | nil => rfl
  | cons c s ih => rw [List.map_cons,List.mapM_cons,ih]; rfl

theorem lossy_encode (s : Text) : lossy (encode s) = s := by
  rw [lossy,decode_encode,List.map_map]
  exact List.map_id s

theorem encode_injective (same : encode s = encode t) : s = t := by
  rw [← readable_encode s,same,readable_encode]

/-- What is read of some bytes is read of them and more bytes as well. -/
theorem prefix_filterMap_decodeFrom (begun : Option Begun) (u v : List UInt8) :
    (decodeFrom begun u).filterMap id <+: (decodeFrom begun (u ++ v)).filterMap id := by
  fun_induction decodeFrom begun u with
  | case1 => exact List.nil_prefix
  | case2 => exact List.nil_prefix
  | case3 b r c leads ih => simpa [decodeFrom,leads] using ih
  | case4 b r n leads ih => simpa [decodeFrom,leads] using ih
  | case5 b r leads ih => simpa [decodeFrom,leads] using ih
  | case6 n b r within value last ih =>
    rw [List.cons_append,decodeFrom,if_pos within,if_pos last]
    exact List.cons_prefix_cons.2 ⟨rfl,ih⟩
  | case7 n b r within value more ih =>
    rw [List.cons_append,decodeFrom,if_pos within,if_neg more]
    exact ih
  | case8 n b r off fresh begun =>
    rw [List.cons_append,decodeFrom,if_neg off]
    cases lead b.toNat with
    | whole c => exact List.cons_prefix_cons.2 ⟨rfl,fresh⟩
    | begun m => exact begun m
    | gap => exact fresh

end Text

end Recast.Encoding

namespace Recast.Text
open Encoding
variable {s p q : Text} {start stop : Nat}

/-- The number of bytes of a text. -/
def byteLength (s : Text) : Nat := (encode s).length

/-- Between two places in the bytes of a text there are whole characters. -/
def Whole (s : Text) (start stop : Nat) : Prop :=
  ∃ before inside behind, s = before ++ inside ++ behind ∧ start = byteLength before ∧
    stop = byteLength (before ++ inside)

theorem byteLength_append (s t : Text) : byteLength (s ++ t) = byteLength s + byteLength t := by
  rw [byteLength,encode_append,List.length_append]
  rfl

theorem byteLength_pos (filled : s ≠ []) : 0 < byteLength s := by
  obtain ⟨c,r,rfl⟩ := List.exists_cons_of_ne_nil filled
  change 0 < (encode ([c] ++ r)).length
  have size := String.length_utf8EncodeChar c
  have some_ := c.utf8Size_pos
  rw [encode_append,List.length_append,encode,List.flatMap_singleton]
  omega

/-- Of two beginnings of a text the one with fewer bytes begins the other one. -/
theorem prefix_of_byteLength_le (first : p <+: s) (second : q <+: s) (less : byteLength p ≤ byteLength q) :
    p <+: q := by
  rcases List.prefix_or_prefix_of_prefix first second with begins | ⟨more,rfl⟩
  · exact begins
  · rw [byteLength_append] at less
    have none_ : more = [] := by
      by_contra filled
      have := byteLength_pos filled
      omega
    rw [none_,List.append_nil]

theorem take_encode (p s : Text) : (encode (p ++ s)).take (byteLength p) = encode p := by
  rw [encode_append]
  exact List.take_left

theorem drop_encode (p s : Text) : (encode (p ++ s)).drop (byteLength p) = encode s := by
  rw [encode_append]
  exact List.drop_left

theorem slice_encode (p inside behind : Text) :
    ((encode (p ++ inside ++ behind)).take (byteLength (p ++ inside))).drop (byteLength p) = encode inside := by
  rw [take_encode,drop_encode]

theorem charsWithin_byteLength (p s : Text) : charsWithin (byteLength p) (p ++ s) = p.length := by
  rw [charsWithin,take_encode,readable_encode]

/-- Fewer bytes hold no more characters. -/
theorem charsWithin_mono {a b : Nat} (le : a ≤ b) (s : Text) : charsWithin a s ≤ charsWithin b s := by
  obtain ⟨more,whole⟩ := List.take_prefix_take_left (l := encode s) le
  unfold charsWithin readable decode
  rw [← whole]
  exact (prefix_filterMap_decodeFrom none _ more).length_le

theorem charsWithin_le (place : Nat) (s : Text) : charsWithin place s ≤ s.length := by
  obtain ⟨more,whole⟩ := List.take_prefix place (encode s)
  have all := (prefix_filterMap_decodeFrom none ((encode s).take place) more).length_le
  rw [whole] at all
  exact all.trans_eq (congrArg List.length (readable_encode s))

/-- Between two places there is the same text in the bytes and in the characters. -/
theorem Whole.slice_eq (whole : Whole s start stop) : ((encode s).take stop).drop start =
    encode ((s.take (charsWithin stop s)).drop (charsWithin start s)) := by
  obtain ⟨before,inside,behind,rfl,rfl,rfl⟩ := whole
  have first : charsWithin (byteLength before) (before ++ inside ++ behind) = before.length := by
    rw [List.append_assoc,charsWithin_byteLength]
  rw [slice_encode,charsWithin_byteLength,first,List.take_left,List.drop_left]

theorem Whole.le (whole : Whole s start stop) : start ≤ stop := by
  obtain ⟨before,inside,_,_,rfl,rfl⟩ := whole
  rw [byteLength_append]
  omega

end Recast.Text
