import Recast.Proofs.Dialogue.Continuation
import Recast.Proofs.Repair
import Recast.Proofs.Text.Runs

/-! Answers that carry an escaped code. Escaping leaves neither tags nor wrappers in the text, so that
every reader finds the section where it was put, and decoding gives back the code, whatever stands in
it. Only a fence is not escaped: a code that begins with one is carried inside another fence. -/
namespace Recast
open Text

namespace Text

/-- Replacing one character is done character by character. -/
theorem substitute_single (c : Char) (new s : Text) :
    substitute [c] new s = s.flatMap fun d => if d = c then new else [d] := by
  change substituteFrom [c] new 0 s = _
  induction s with
  | nil => rfl
  | cons d s ih =>
    by_cases same : d = c
    · simp [substituteFrom,same,ih]
    · simp [substituteFrom,same,Ne.symm same,ih]

theorem cutLast?_eq_none_of_short {w s : Text} (short : s.length < w.length) : cutLast? w s = none := by
  cases found : cutLast? w s with
  | none => rfl
  | some p =>
    have size := congrArg List.length (cutLast?_eq_some found)
    simp only [List.length_append] at size
    omega

/-- The last place of a word is where a text ends with it. -/
theorem cutLast?_append_self {w : Text} (some_ : w ≠ []) (s : Text) :
    cutLast? w (s ++ w) = some (s,[]) := by
  induction s with
  | nil =>
    cases w with
    | nil => exact absurd rfl some_
    | cons c r =>
      have here : after? (c :: r) (c :: r) = some [] := after?_eq_some_iff.2 (List.append_nil _).symm
      rw [List.nil_append,cutLast?,cutLast?_eq_none_of_short (by simp),here]
      rfl
  | cons c s ih => rw [List.cons_append,cutLast?,ih]

/-- A word without blanks does not reach into the blanks at the end. -/
theorem prefix_trim_iff {w s : Text} (solid : ∀ c ∈ w, isBlank c = false) :
    w <+: trim s ↔ w <+: trimLeft s := by
  have parts : trim s ++ takeEndWhile isBlank (trimLeft s) = trimLeft s :=
    dropEndWhile_append_takeEndWhile isBlank (trimLeft s)
  refine ⟨fun begins => begins.trans ⟨_,parts⟩,fun ⟨rest,same⟩ => ?_⟩
  rw [← parts] at same
  rcases List.append_eq_append_iff.1 same with ⟨more,whole,_⟩ | ⟨more,word,tail⟩
  · exact ⟨more,whole.symm⟩
  · cases more with
    | nil => exact ⟨[],by rw [List.append_nil] at word ⊢; exact word⟩
    | cons c more =>
      have member : c ∈ (trimLeft s).reverse.takeWhile isBlank := by
        rw [← List.mem_reverse]
        change c ∈ takeEndWhile isBlank (trimLeft s)
        simp [tail]
      have white := List.all_eq_true.1 List.all_takeWhile c member
      rw [solid c (by simp [word])] at white
      cases white

end Text

namespace Entity

theorem escape_cons (c : Char) (s : Text) : escape (c :: s) = escapeChar c ++ escape s :=
  List.flatMap_cons

/-- The characters that are escaped. -/
def special : Text := ['&','<','>']

theorem forall_special {p : Char → Prop} (amp : p '&') (less : p '<') (more : p '>') :
    ∀ c ∈ special, p c := by
  simp only [special,List.forall_mem_cons]
  exact ⟨amp,less,more,by simp⟩

theorem escapeChar_plain {c : Char} (plain : c ∉ special) : escapeChar c = [c] := by
  simp only [special,List.mem_cons,List.not_mem_nil,or_false,not_or] at plain
  obtain ⟨amp,lt,gt⟩ := plain
  rw [escapeChar,if_neg amp,if_neg lt,if_neg gt]

theorem escapeChar_special {c : Char} (escaped : c ∈ special) : ∃ name, escapeChar c = '&' :: name := by
  simp only [special,List.mem_cons,List.not_mem_nil,or_false] at escaped
  rcases escaped with rfl | rfl | rfl
  · exact ⟨"amp;",rfl⟩
  · exact ⟨"lt;",rfl⟩
  · exact ⟨"gt;",rfl⟩

/-- The ampersand goes first, so that those of the other two references are not escaped again. -/
theorem escape_eq (s : Text) :
    escape s = substitute ">" "&gt;" (substitute "<" "&lt;" (substitute "&" "&amp;" s)) := by
  have each (c : Char) : escapeChar c = (if c = '&' then "&amp;".toList else [c]).flatMap fun d =>
      (if d = '<' then "&lt;".toList else [d]).flatMap fun e =>
        if e = '>' then "&gt;".toList else [e] := by
    by_cases escaped : c ∈ special
    · revert c
      exact forall_special rfl rfl rfl
    · rw [escapeChar_plain escaped]
      simp only [special,List.mem_cons,List.not_mem_nil,or_false,not_or] at escaped
      simp [escaped]
  change escape s = substitute ['>'] _ (substitute ['<'] _ (substitute ['&'] _ s))
  simp only [substitute_single,List.flatMap_assoc]
  unfold escape
  rw [funext each]

theorem notMem_escape {d : Char} (angle : d ∈ ['<','>']) (s : Text) : d ∉ escape s := by
  intro member
  obtain ⟨c,_,inside⟩ := List.mem_flatMap.1 member
  by_cases escaped : c ∈ special
  · simp only [List.mem_cons,List.not_mem_nil,or_false] at angle
    rcases angle with rfl | rfl
    · exact forall_special (p := fun c => '<' ∉ escapeChar c) (by decide) (by decide) (by decide) c escaped
        inside
    · exact forall_special (p := fun c => '>' ∉ escapeChar c) (by decide) (by decide) (by decide) c escaped
        inside
  · rw [escapeChar_plain escaped,List.mem_singleton] at inside
    subst inside
    exact escaped (List.mem_cons_of_mem '&' angle)

/-- Each reference takes up the characters that it was written with. -/
theorem decodeFrom_escapeChar (c : Char) (s : Text) :
    decodeFrom 0 (escapeChar c ++ s) = c :: decodeFrom 0 s := by
  by_cases escaped : c ∈ special
  · simp only [special,List.mem_cons,List.not_mem_nil,or_false] at escaped
    rcases escaped with rfl | rfl | rfl
    · rfl
    · rfl
    · rfl
  · have other : c ≠ '&' := fun same => escaped (by simp [same,special])
    rw [escapeChar_plain escaped,List.singleton_append,decodeFrom,if_neg other]

theorem decode_escape (s : Text) : decode (escape s) = s := by
  unfold decode
  induction s with
  | nil => rfl
  | cons c s ih => rw [escape_cons,decodeFrom_escapeChar,ih]

/-- No escaped character is a blank, and no reference begins with one. -/
theorem trimLeft_escape (s : Text) : trimLeft (escape s) = escape (trimLeft s) := by
  induction s with
  | nil => rfl
  | cons c s ih =>
    by_cases escaped : c ∈ special
    · have solid : ∀ c ∈ special, isBlank c = false := forall_special rfl rfl rfl
      obtain ⟨name,same⟩ := escapeChar_special escaped
      have kept : trimLeft (c :: s) = c :: s := List.dropWhile_cons_of_neg (by simp [solid c escaped])
      rw [kept,escape_cons,same]
      exact List.dropWhile_cons_of_neg (by decide)
    · rw [escape_cons,escapeChar_plain escaped,List.singleton_append]
      cases white : isBlank c with
      | true => simpa [trimLeft,white] using ih
      | false => simp [trimLeft,white,escape_cons,escapeChar_plain escaped]

/-- A word without the escaped characters begins an escaped text only if it begins the text. -/
theorem prefix_of_prefix_escape {w s : Text} (plain : ∀ c ∈ w, c ∉ special)
    (begins : w <+: escape s) : w <+: s := by
  induction w generalizing s with
  | nil => exact List.nil_prefix
  | cons d w ih =>
    cases s with
    | nil => exact absurd (List.prefix_nil.1 begins) (by simp)
    | cons c s =>
      rw [escape_cons] at begins
      by_cases escaped : c ∈ special
      · obtain ⟨name,same⟩ := escapeChar_special escaped
        rw [same] at begins
        exact absurd (List.cons_prefix_cons.1 begins).1 fun other =>
          plain d (by simp) (by simp [other,special])
      · rw [escapeChar_plain escaped,List.singleton_append] at begins
        obtain ⟨here,rest⟩ := List.cons_prefix_cons.1 begins
        exact List.cons_prefix_cons.2 ⟨here,ih (fun c member => plain c (by simp [member])) rest⟩

end Entity

namespace Fence

/-- A text between two fence lines, the first of them with a language word. -/
def around (word s : Text) : Text := mark ++ (word ++ '\n' :: (s ++ '\n' :: mark))

theorem strip_of_bare {s : Text} (bare : ¬ mark <+: trim s) : strip s = s := by
  rw [strip,after?_eq_none bare]

/-- Whatever stands between the two fence lines, fences and line feeds included, is what is left. -/
theorem strip_around {word : Text} (lettered : ∀ c ∈ word, isWordChar c = true) (s : Text) :
    strip (around word s) = s := by
  have shape : around word s = '`' :: (("``" ++ (word ++ '\n' :: (s ++ '\n' :: "``"))) ++ ['`']) := by
    simp [around,mark]
  have solid : trim (around word s) = around word s := by
    rw [shape]
    exact Repairer.trim_eq_self (by decide) (by decide)
  have behind : after? mark (around word s) = some (word ++ '\n' :: (s ++ '\n' :: mark)) :=
    after?_eq_some_iff.2 rfl
  have inner : body (word ++ '\n' :: (s ++ '\n' :: mark)) = (s ++ ['\n']) ++ mark := by
    unfold body
    rw [dropWhile_append lettered rfl]
    simp
  have closed : endsWith mark ((s ++ ['\n']) ++ mark) = true :=
    List.isSuffixOf_iff_suffix.2 (List.suffix_append _ _)
  have feed : endsWith "\n" (s ++ ['\n']) = true := List.isSuffixOf_iff_suffix.2 (List.suffix_append _ _)
  unfold strip
  rw [solid,behind]
  simp only [inner,closed,if_true]
  rw [List.length_append,Nat.add_sub_cancel,List.take_left,dropFeed,if_pos feed,List.dropLast_concat]

end Fence

namespace Verbatim

/-- A text marked as verbatim. -/
def wrap (s : Text) : Text := opening ++ (s ++ closing)

theorem unwrap_of_notMem {s : Text} (absent : '<' ∉ s) : unwrap s = Fence.strip s := by
  rw [unwrap,cut?_eq_none_iff.2 (lacks_of_notMem (w := opening) (by decide) absent)]

theorem unwrap_wrap (s : Text) : unwrap (wrap s) = Fence.strip s := by
  have begins : cut? opening (wrap s) = some ([],s ++ closing) := by
    have found := cut?_word (w := opening) (s := []) rfl (by decide) (by decide) (s ++ closing)
    exact found
  unfold unwrap
  rw [begins]
  simp [blank,cutLast?_append_self (w := closing) (by decide) s]

end Verbatim

namespace Tags

section Reading
variable {before section_ : Text} (free : Lacks "<code>" before) (unclosed : Lacks "</code>" section_)
include free unclosed

theorem code_closed (after : Text) :
    standard.code (before ++ ("<code>" ++ (section_ ++ ("</code>" ++ after)))) = decode section_ ∧
      standard.isComplete (before ++ ("<code>" ++ (section_ ++ ("</code>" ++ after)))) = true := by
  unfold isComplete code section? occurs
  rw [cut?_opening free]
  simp only [cut?_closing unclosed]
  exact ⟨trivial,rfl⟩

theorem code_open :
    standard.code (before ++ ("<code>" ++ section_)) = decode section_ ∧
      standard.isComplete (before ++ ("<code>" ++ section_)) = false := by
  unfold isComplete code section? occurs
  rw [cut?_opening free]
  simp only [cut?_closing_none unclosed]
  exact ⟨trivial,rfl⟩

end Reading

/-- The forms in which a section without tags can stand: as it is, or marked as verbatim. -/
def forms (s : Text) : List Text := [s,Verbatim.wrap s]

theorem unclosed_of_forms {s form : Text} (absent : '<' ∉ s) (member : form ∈ forms s) :
    Lacks "</code>" form := by
  have bare : Lacks "</code>" s := lacks_of_notMem (by decide) absent
  simp only [forms,List.mem_cons,List.not_mem_nil,or_false] at member
  rcases member with rfl | rfl
  · exact bare
  · have tail : Lacks "</code>" ("![CDATA[" ++ (s ++ Verbatim.closing)) :=
      lacks_of_notMem (c := '<') (by decide) (by simp [absent,Verbatim.closing])
    have whole : Verbatim.wrap s = '<' :: ("![CDATA[" ++ (s ++ Verbatim.closing)) := rfl
    intro found
    rw [whole] at found
    rcases List.infix_cons_iff.1 found with begins | inside
    · obtain ⟨_,next⟩ := List.cons_prefix_cons.1 begins
      exact absurd (List.cons_prefix_cons.1 next).1 (by decide)
    · exact tail inside

/-- What a section without angle brackets decodes to does not depend on its form. -/
theorem decode_of_forms {s form : Text} (absent : '<' ∉ s) (member : form ∈ forms s) :
    decode form = Entity.decode (Fence.strip s) := by
  unfold decode
  simp only [forms,List.mem_cons,List.not_mem_nil,or_false] at member
  rcases member with rfl | rfl
  · rw [Verbatim.unwrap_of_notMem absent]
  · rw [Verbatim.unwrap_wrap]

section Carrying
variable {c : Text}

theorem decode_escaped (unfenced : ¬ Fence.mark <+: trim c) {form : Text}
    (member : form ∈ forms (Entity.escape c)) : decode form = c := by
  have tick : ∀ d ∈ Fence.mark, d = '`' := by simp [Fence.mark]
  have solid : ∀ d ∈ Fence.mark, isBlank d = false := fun d member => by rw [tick d member]; rfl
  have plain : ∀ d ∈ Fence.mark, d ∉ Entity.special := fun d member => by rw [tick d member]; decide
  have bare : ¬ Fence.mark <+: trim (Entity.escape c) := by
    intro begins
    rw [prefix_trim_iff solid,Entity.trimLeft_escape] at begins
    exact unfenced ((prefix_trim_iff solid).2 (Entity.prefix_of_prefix_escape plain begins))
  rw [decode_of_forms (Entity.notMem_escape (by decide) c) member,Fence.strip_of_bare bare,
    Entity.decode_escape]

/-- No letter of a language word is an angle bracket, and neither is one of the fence. -/
theorem notMem_fenced {word : Text} (lettered : ∀ d ∈ word, Fence.isWordChar d = true) :
    '<' ∉ Fence.around word (Entity.escape c) := by
  have other : '<' ∉ word := fun member => absurd (lettered '<' member) (by decide)
  simp [Fence.around,Fence.mark,other,Entity.notMem_escape (d := '<') (by decide) c]

theorem decode_fenced {word : Text} (lettered : ∀ d ∈ word, Fence.isWordChar d = true) {form : Text}
    (member : form ∈ forms (Fence.around word (Entity.escape c))) : decode form = c := by
  rw [decode_of_forms (notMem_fenced lettered) member,Fence.strip_around lettered,Entity.decode_escape]

end Carrying

/-- An answer carries every code. Escaped it comes back from a closed section, from one that was cut
off and from an answer that goes on, unless it begins with a fence; between two fence lines it comes
back from every section. -/
theorem carries_escaped (c : Text) {before : Text} (free : Lacks "<code>" before) (after : Text) :
    Entity.escape c = substitute ">" "&gt;" (substitute "<" "&lt;" (substitute "&" "&amp;" c)) ∧
    (¬ Fence.mark <+: trim c →
      (∀ form ∈ [Entity.escape c,Verbatim.wrap (Entity.escape c)],
        standard.code (before ++ ("<code>" ++ (form ++ ("</code>" ++ after)))) = c ∧
        standard.isComplete (before ++ ("<code>" ++ (form ++ ("</code>" ++ after)))) = true) ∧
      (Lacks "<code>" after →
        standard.continuation (Entity.escape c ++ ("</code>" ++ after)) = (c,true)) ∧
      standard.continuation (Entity.escape c) = (c,false) ∧
      standard.code (before ++ ("<code>" ++ Entity.escape c)) = c ∧
      standard.isComplete (before ++ ("<code>" ++ Entity.escape c)) = false) ∧
    ∀ word : Text, (∀ d ∈ word, Fence.isWordChar d = true) →
      ∀ form ∈ [Fence.around word (Entity.escape c),
          Verbatim.wrap (Fence.around word (Entity.escape c))],
        decode form = c ∧
        standard.code (before ++ ("<code>" ++ (form ++ ("</code>" ++ after)))) = c := by
  have absent : '<' ∉ Entity.escape c := Entity.notMem_escape (by decide) c
  have unopened : Lacks "<code>" (Entity.escape c) := lacks_of_notMem (by decide) absent
  have unclosed : Lacks "</code>" (Entity.escape c) := lacks_of_notMem (by decide) absent
  refine ⟨Entity.escape_eq c,fun unfenced => ⟨fun form member => ?_,fun silent => ?_,?_,?_⟩,
    fun word lettered form member => ?_⟩
  · have read := code_closed free (unclosed_of_forms absent member) after
    rw [decode_escaped unfenced member] at read
    exact read
  · unfold continuation
    rw [hasCode_of_lacks (lacks_opening unopened silent),cut?_closing unclosed]
    simp only [decode_escaped unfenced (List.mem_cons_self ..)]
    rfl
  · unfold continuation
    rw [hasCode_of_lacks unopened,cut?_closing_none unclosed]
    simp only [decode_escaped unfenced (List.mem_cons_self ..)]
    rfl
  · have read := code_open free unclosed
    rw [decode_escaped unfenced (List.mem_cons_self ..)] at read
    exact read
  · have whole := decode_fenced lettered member
    have read := code_closed free (unclosed_of_forms (notMem_fenced lettered) member) after
    rw [whole] at read
    exact ⟨whole,read.1⟩

/-- The code has tags, references, the end of a wrapper and a fence of its own. -/
theorem carries_escaped_markup :
    let c : Text := "a < b && \"&lt;\" <code>]]></code>\n```\n"
    let fenced := Fence.around "c++" (Entity.escape c)
    Lacks "<code>" "Here: " ∧ ¬ Fence.mark <+: trim c ∧
      standard.code ("Here: " ++ ("<code>" ++
        (Verbatim.wrap (Entity.escape c) ++ ("</code>" ++ "</code>")))) = c ∧
      standard.continuation (Entity.escape c) = (c,false) ∧
      standard.code ("Here: " ++ ("<code>" ++
        (Verbatim.wrap fenced ++ ("</code>" ++ "</code>")))) = c := by
  intro c fenced
  have free : Lacks "<code>" "Here: " := by decide
  have bare : ¬ Fence.mark <+: trim c := by decide
  obtain ⟨_,unfenced,between⟩ := carries_escaped c free "</code>"
  obtain ⟨closed,_,goesOn,_⟩ := unfenced bare
  refine ⟨free,bare,(closed _ (by simp)).1,goesOn,?_⟩
  exact (between "c++" (List.all_eq_true.1 (by decide)) _ (by simp [fenced])).2

end Tags

end Recast
