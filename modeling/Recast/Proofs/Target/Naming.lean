import Recast.Proofs.Number.Numeral
import Recast.Proofs.Path
import Recast.Rename.Namer

/-! The names of types and of their files. Names made from other texts are simple, and a number behind
a name stays behind it in every form of the name. -/
namespace Recast
open Text

namespace Naming

/-- A name in which nothing means anything to a path. -/
structure Simple (name : Text) : Prop where
  filled : name ≠ []
  slashes : '/' ∉ name
  points : '.' ∉ name

/-- A name of ASCII letters, digits and low lines. -/
theorem Simple.of_words {name : Text} (filled : name ≠ []) (words : ∀ c ∈ name, isAsciiWord c = true) :
    Simple name :=
  ⟨filled,fun inside => absurd (words _ inside) (by decide),
    fun inside => absurd (words _ inside) (by decide)⟩

theorem Simple.append {name more : Text} (simple : Simple name) (slashes : '/' ∉ more)
    (points : '.' ∉ more) : Simple (name ++ more) :=
  ⟨by simp [simple.filled],by simp [simple.slashes,slashes],by simp [simple.points,points]⟩

theorem digit_isDigit : ∀ d < 10, (Numeral.digit d).isDigit = true := by decide

theorem words_ofNat (i : Nat) : ∀ c ∈ Numeral.ofNat i, isAsciiWord c = true := by
  have single : ∀ d < 10, isAsciiWord (Numeral.digit d) = true := by decide
  exact Numeral.forall_mem_ofNat single i

theorem Simple.numbered {name : Text} (simple : Simple name) (i : Nat) :
    Simple (Namer.numbered name i) := by
  refine simple.append (fun inside => ?_) fun inside => ?_
  · rcases List.mem_cons.1 inside with same | later
    · cases same
    · exact absurd (words_ofNat i _ later) (by decide)
  · rcases List.mem_cons.1 inside with same | later
    · cases same
    · exact absurd (words_ofNat i _ later) (by decide)

theorem Simple.isName {name extension : Text} (simple : Simple name) (flat : '/' ∉ extension) :
    Path.IsName (name ++ extension) := by
  obtain ⟨filled,slashes,points⟩ := simple
  cases name with
  | nil => exact absurd rfl filled
  | cons c name =>
    have other : c ≠ '.' := fun same => points (by simp [same])
    exact ⟨⟨by simp,by simp [other],by simp only [List.mem_append,not_or]; exact ⟨slashes,flat⟩⟩,by simp [other]⟩

theorem not_mem_fields {p : Char → Bool} {s field : Text} (member : field ∈ fields p s) :
    ∀ c ∈ field, p c = false := by
  induction s generalizing field with
  | nil => simp [fields] at member
  | cons c s ih =>
    unfold fields at member
    split at member
    · exact ih member
    · rename_i plain
      have first : p c = false := by simpa using plain
      split at member
      · rw [List.mem_singleton.1 member]
        simpa using first
      · split at member
        · rcases List.mem_cons.1 member with rfl | later
          · simpa using first
          · exact ih later
        · split at member
          · rw [List.mem_singleton.1 member]
            simpa using first
          · rename_i word rest held
            rw [held] at ih
            rcases List.mem_cons.1 member with rfl | later
            · intro d inside
              rcases List.mem_cons.1 inside with rfl | inner
              · exact first
              · exact ih (by simp) d inner
            · exact ih (by simp [later])

theorem word_of_isPlain {c : Char} (plain : isPlain c = true) : isAsciiWord c = true := by
  unfold isPlain at plain
  simp [isAsciiWord,plain]

theorem isUpper_toUpper {c : Char} (small : c.isLower = true) : c.toUpper.isUpper = true := by
  have bounds := isLower_iff.1 small
  rw [isUpper_iff]
  unfold Char.toUpper
  split
  · simp [UInt32.toNat_add]
    omega
  · rename_i other
    refine absurd ?_ other
    simp [UInt32.le_iff_toNat_le]
    omega

theorem isLower_toLower {c : Char} (capital : c.isUpper = true) : c.toLower.isLower = true := by
  have bounds := isUpper_iff.1 capital
  rw [isLower_iff]
  unfold Char.toLower
  split
  · simp [UInt32.toNat_add]
    omega
  · rename_i other
    refine absurd ?_ other
    simp [UInt32.le_iff_toNat_le]
    omega

theorem toUpper_of_not {c : Char} (other : ¬ c.isLower = true) : c.toUpper = c := by
  unfold Char.toUpper
  split
  · rename_i small
    exact absurd (isLower_iff.2 (by simpa [UInt32.le_iff_toNat_le] using small)) other
  · rfl

theorem toLower_of_not {c : Char} (other : ¬ c.isUpper = true) : c.toLower = c := by
  unfold Char.toLower
  split
  · rename_i capital
    exact absurd (isUpper_iff.2 (by simpa [UInt32.le_iff_toNat_le] using capital)) other
  · rfl

theorem word_toUpper {c : Char} (plain : isPlain c = true) : isAsciiWord c.toUpper = true := by
  by_cases small : c.isLower = true
  · have letter := isAlpha_iff.2 (.inl (isUpper_toUpper small))
    simp only [isAsciiWord,Char.isAlphanum,letter,Bool.true_or]
  · rw [toUpper_of_not small]
    exact word_of_isPlain plain

theorem word_toLower {c : Char} (word : isAsciiWord c = true) : isAsciiWord c.toLower = true := by
  by_cases capital : c.isUpper = true
  · have letter := isAlpha_iff.2 (.inr (isLower_toLower capital))
    simp only [isAsciiWord,Char.isAlphanum,letter,Bool.true_or]
  · rwa [toLower_of_not capital]

theorem words_of_isIdentifier {s : Text} (held : isIdentifier s = true) :
    ∀ c ∈ s, isAsciiWord c = true := by
  cases s with
  | nil => cases held
  | cons c r =>
    unfold isIdentifier at held
    simp only [Bool.and_eq_true,Bool.or_eq_true,decide_eq_true_eq] at held
    intro d member
    rcases List.mem_cons.1 member with rfl | later
    · rcases held.1 with letter | rfl
      · simp [isAsciiWord,Char.isAlphanum,letter]
      · rfl
    · exact List.all_eq_true.1 held.2 d later

theorem Simple.of_isIdentifier {s : Text} (held : isIdentifier s = true) : Simple s :=
  .of_words (fun empty => by rw [empty] at held; cases held) (words_of_isIdentifier held)

/-- An identifier stays one with more words characters behind it. -/
theorem isIdentifier_append {s t : Text} (held : isIdentifier s = true)
    (words : ∀ c ∈ t, isAsciiWord c = true) : isIdentifier (s ++ t) = true := by
  cases s with
  | nil => cases held
  | cons c r =>
    unfold isIdentifier at *
    simp only [List.cons_append,List.all_append,Bool.and_eq_true] at *
    exact ⟨held.1,held.2,List.all_eq_true.2 words⟩

theorem isIdentifier_numbered {name : Text} (held : isIdentifier name = true) (i : Nat) :
    isIdentifier (Namer.numbered name i) = true := by
  refine isIdentifier_append held fun c member => ?_
  rcases List.mem_cons.1 member with rfl | later
  · rfl
  · exact words_ofNat i c later

theorem isIdentifier_pascal (name : Text) : isIdentifier (pascal name) = true := by
  have words : ∀ c ∈ ((fields (fun c => !isPlain c) name).map capitalise).flatten,
      isAsciiWord c = true := by
    intro c member
    obtain ⟨word,inside,within_⟩ := List.mem_flatten.1 member
    obtain ⟨field,found,rfl⟩ := List.mem_map.1 inside
    have plain : ∀ d ∈ field, isPlain d = true := fun d here => by
      simpa using not_mem_fields found d here
    cases field with
    | nil => simp [capitalise] at within_
    | cons d field =>
      rcases List.mem_cons.1 within_ with rfl | later
      · exact word_toUpper (plain d (by simp))
      · exact word_of_isPlain (plain c (by simp [later]))
  unfold pascal
  dsimp only
  split
  · decide
  · rename_i c rest joined
    rw [joined] at words ⊢
    split
    · unfold isIdentifier
      rw [Bool.and_eq_true]
      exact ⟨rfl,List.all_eq_true.2 words⟩
    · rename_i other
      have first := words c (by simp)
      unfold isIdentifier
      rw [Bool.and_eq_true]
      refine ⟨?_,List.all_eq_true.2 fun d member => words d (by simp [member])⟩
      unfold isAsciiWord Char.isAlphanum at first
      simpa [other] using first

theorem simple_pascal (name : Text) : Simple (pascal name) := .of_isIdentifier (isIdentifier_pascal name)

theorem words_squeeze (inside : Bool) (s : Text) : ∀ c ∈ squeeze inside s, isAsciiWord c = true := by
  induction s generalizing inside with
  | nil => simp [squeeze]
  | cons d s ih =>
    unfold squeeze
    split
    · rename_i word
      intro c member
      rcases List.mem_cons.1 member with rfl | later
      · exact word
      · exact ih _ c later
    · split
      · exact ih _
      · intro c member
        rcases List.mem_cons.1 member with rfl | later
        · rfl
        · exact ih _ c later

theorem mem_of_mem_dropEndWhile {p : Char → Bool} {s : Text} {c : Char}
    (member : c ∈ dropEndWhile p s) : c ∈ s := by
  rw [← dropEndWhile_append_takeEndWhile p s]
  exact List.mem_append_left _ member

theorem simple_snake (name : Text) : Simple (snake name) := by
  have words : ∀ c ∈ (trimLowLines (squeeze false (separateWords none name))).map Char.toLower,
      isAsciiWord c = true := by
    intro c member
    obtain ⟨d,inside,rfl⟩ := List.mem_map.1 member
    have kept := mem_of_mem_dropEndWhile inside
    exact word_toLower (words_squeeze _ _ d (List.dropWhile_sublist _ |>.subset kept))
  unfold snake
  dsimp only
  split
  · exact .of_words (by decide) (List.all_eq_true.1 (by decide))
  · rename_i filled
    exact .of_words (by simpa using filled) words

theorem isDigit_iff {c : Char} : c.isDigit = true ↔ 48 ≤ c.toNat ∧ c.toNat ≤ 57 := by
  simp [Char.isDigit,UInt32.le_iff_toNat_le]

theorem not_isUpper_of_isDigit {c : Char} (digit : c.isDigit = true) : c.isUpper = false := by
  have bounds := isDigit_iff.1 digit
  rw [Bool.eq_false_iff,ne_eq,isUpper_iff]
  omega

private theorem separateWords_digits (before : Option Char) {ds : Text}
    (digits : ∀ d ∈ ds, d.isDigit = true) : separateWords before ds = ds := by
  induction ds generalizing before with
  | nil => rfl
  | cons d ds ih =>
    have small : d.isUpper = false := not_isUpper_of_isDigit (digits d (by simp))
    simp [separateWords,small,ih (some d) fun e member => digits e (by simp [member])]

/-- Digits behind a low line stay as they are while the words before are separated. -/
private theorem separateWords_low (before : Option Char) (s : Text) :
    ∃ front, ∀ ds : Text, (∀ d ∈ ds, d.isDigit = true) →
      separateWords before (s ++ '_' :: ds) = front ++ '_' :: ds := by
  induction s generalizing before with
  | nil =>
    refine ⟨[],fun ds digits => ?_⟩
    have low : ('_').isUpper = false := rfl
    simp [separateWords,low,separateWords_digits _ digits]
  | cons c s ih =>
    obtain ⟨front,same⟩ := ih (some c)
    obtain ⟨mark,opened⟩ : ∃ mark, ∀ t : Text, t.head? = (s ++ ['_']).head? →
        separateWords before (c :: t) = mark ++ c :: separateWords (some c) t :=
      ⟨_,fun t next => by rw [separateWords,next]⟩
    refine ⟨mark ++ c :: front,fun ds digits => ?_⟩
    have next : (s ++ '_' :: ds).head? = (s ++ ['_']).head? := by cases s <;> rfl
    rw [List.cons_append,opened _ next,same ds digits]
    simp

theorem squeeze_words {name : Text} (words : ∀ c ∈ name, isAsciiWord c = true) :
    squeeze false name = name := by
  induction name with
  | nil => rfl
  | cons c name ih =>
    rw [squeeze,if_pos (words c (by simp)),ih fun d member => words d (by simp [member])]

private theorem squeeze_low (inside : Bool) (s : Text) :
    ∃ front, ∀ ds : Text, (∀ d ∈ ds, isAsciiWord d = true) →
      squeeze inside (s ++ '_' :: ds) = front ++ '_' :: ds := by
  induction s generalizing inside with
  | nil =>
    have low : isAsciiWord '_' = true := rfl
    exact ⟨[],fun ds words => by rw [List.nil_append,squeeze,if_pos low,squeeze_words words]⟩
  | cons c s ih =>
    by_cases word : isAsciiWord c = true
    · obtain ⟨front,same⟩ := ih false
      exact ⟨c :: front,fun ds words => by rw [List.cons_append,squeeze,if_pos word,same ds words]; rfl⟩
    · obtain ⟨front,same⟩ := ih true
      cases inside with
      | true =>
        exact ⟨front,fun ds words => by rw [List.cons_append,squeeze,if_neg word,if_pos rfl,same ds words]⟩
      | false =>
        refine ⟨'_' :: front,fun ds words => ?_⟩
        rw [List.cons_append,squeeze,if_neg word,if_neg Bool.false_ne_true,same ds words]
        rfl

private theorem trimLowLines_low (s : Text) :
    ∃ front, ∀ ds : Text, ds ≠ [] → '_' ∉ ds → trimLowLines (s ++ '_' :: ds) = front ++ ds := by
  have started : ∃ front, ∀ ds : Text, ds ≠ [] → '_' ∉ ds →
      (s ++ '_' :: ds).dropWhile (· = '_') = front ++ ds := by
    induction s with
    | nil =>
      refine ⟨[],fun ds filled free => ?_⟩
      cases ds with
      | nil => exact absurd rfl filled
      | cons d ds =>
        have other : d ≠ '_' := fun same => free (by simp [same])
        simp [other]
    | cons c s ih =>
      by_cases low : c = '_'
      · obtain ⟨front,same⟩ := ih
        exact ⟨front,fun ds filled free => by
          rw [List.cons_append,List.dropWhile_cons_of_pos (by simpa using low),same ds filled free]⟩
      · refine ⟨c :: (s ++ ['_']),fun ds _ _ => ?_⟩
        rw [List.cons_append,List.dropWhile_cons_of_neg (by simpa using low)]
        simp
  obtain ⟨front,same⟩ := started
  refine ⟨front,fun ds filled free => ?_⟩
  unfold trimLowLines dropEndWhile
  rw [same ds filled free,List.reverse_append]
  cases ended : ds.reverse with
  | nil => exact absurd (List.reverse_eq_nil_iff.1 ended) filled
  | cons d rest =>
    have last : d ∈ ds := by rw [← List.mem_reverse,ended]; exact List.mem_cons_self
    have other : d ≠ '_' := fun same => free (same ▸ last)
    rw [List.cons_append,List.dropWhile_cons_of_neg (by simpa using other),← List.cons_append,← ended]
    simp

/-- A number at the end of a name stands at the end of its words too. -/
theorem snake_numbered (name : Text) :
    ∃ front, ∀ i, snake (Namer.numbered name i) = front ++ Numeral.ofNat i := by
  obtain ⟨first,separated⟩ := separateWords_low none name
  obtain ⟨second,squeezed⟩ := squeeze_low false first
  obtain ⟨third,trimmed⟩ := trimLowLines_low second
  refine ⟨third.map Char.toLower,fun i => ?_⟩
  have digits : ∀ d ∈ Numeral.ofNat i, d.isDigit = true := Numeral.forall_mem_ofNat digit_isDigit i
  have small : (Numeral.ofNat i).map Char.toLower = Numeral.ofNat i := by
    calc (Numeral.ofNat i).map Char.toLower = (Numeral.ofNat i).map id :=
          List.map_congr_left fun d member =>
            toLower_of_not (by simp [not_isUpper_of_isDigit (digits d member)])
      _ = Numeral.ofNat i := List.map_id _
  have free : '_' ∉ Numeral.ofNat i := fun inside => absurd (digits _ inside) (by decide)
  unfold snake Namer.numbered
  dsimp only
  rw [separated _ digits,squeezed _ (words_ofNat i),trimmed _ (Numeral.ofNat_ne_nil i) free,
    List.map_append,small,if_neg]
  simp [Numeral.ofNat_ne_nil]

theorem slash_notMem_segment (s : Text) : '/' ∉ segment s := by
  have cleaned : '/' ∉ s.map fun c => if isWord c then c else '_' := by
    intro inside
    obtain ⟨c,_,same⟩ := List.mem_map.1 inside
    split at same
    · rename_i word
      subst same
      exact absurd word (by decide)
    · cases same
  unfold segment
  dsimp only
  split
  · simp
  · rename_i held
    rw [held] at cleaned
    split
    · simpa [held] using cleaned
    · rwa [held]

end Naming

namespace Target

theorem isIdentifier_leadingName {s name : Text} (found : leadingName? s = some name) :
    Naming.isIdentifier name = true := by
  unfold leadingName? at found
  split at found
  · rename_i begins
    rw [← Option.some.inj found]
    cases s with
    | nil => cases begins
    | cons c r =>
      have letter : isNameStart c = true := begins
      have word : isAsciiWord c = true := by
        unfold isNameStart at letter
        unfold isAsciiWord Char.isAlphanum
        simp only [Bool.or_eq_true] at letter ⊢
        rcases letter with alpha | low
        · exact .inl (.inl alpha)
        · exact .inr low
      rw [List.takeWhile_cons_of_pos word]
      unfold Naming.isIdentifier
      rw [Bool.and_eq_true]
      exact ⟨letter,List.all_takeWhile⟩
  · cases found

theorem isIdentifier_firstType {code name : Text} (found : firstType? code = some name) :
    Naming.isIdentifier name = true := by
  have walked (inside : Bool) (s : Text) (held : firstTypeFrom inside s = some name) :
      Naming.isIdentifier name = true := by
    induction s generalizing inside with
    | nil => cases held
    | cons c s ih =>
      unfold firstTypeFrom at held
      split at held
      · rename_i here
        cases held
        split at here
        · cases here
        · obtain ⟨word,_,behind⟩ := List.exists_of_findSome?_eq_some here
          obtain ⟨rest,_,leading⟩ := Option.bind_eq_some_iff.1 behind
          exact isIdentifier_leadingName leading
      · exact ih _ held
  exact walked false code found

end Target

end Recast
