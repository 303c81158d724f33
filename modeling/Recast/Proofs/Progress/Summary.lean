import Mathlib.Data.List.Induction
import Mathlib.Data.List.Infix
import Recast.Progress.State

/-! The running summary of a progress. Notes are added to it one by one, and it keeps as many of the last
characters as its bound allows, from the beginning of a line where there is one. -/
namespace Recast

namespace Text
variable {s note : Text}

/-- A text with something other than a blank at both ends. -/
structure Trimmed (s : Text) : Prop where
  begins : ∃ c r, s = c :: r ∧ isBlank c = false
  ends : ∃ r c, s = r ++ [c] ∧ isBlank c = false

theorem dropWhile_isBlank_cons (filled : s.dropWhile isBlank ≠ []) :
    ∃ c r, s.dropWhile isBlank = c :: r ∧ isBlank c = false := by
  refine ⟨_,_,(List.cons_head_tail filled).symm,?_⟩
  simpa using List.head_dropWhile_not isBlank filled

theorem trimmed_trim (filled : trim s ≠ []) : Trimmed (trim s) := by
  have rest : (trimLeft s).reverse.dropWhile isBlank ≠ [] := by
    intro none_
    exact filled (congrArg List.reverse none_)
  obtain ⟨c,r,shape,plain⟩ := dropWhile_isBlank_cons rest
  have kept : trim s = r.reverse ++ [c] := (congrArg List.reverse shape).trans List.reverse_cons
  refine ⟨?_,r.reverse,c,kept,plain⟩
  -- What is cut off at the end leaves the beginning of the text that no blank begins.
  have whole : trim s ++ takeEndWhile isBlank (trimLeft s) = trimLeft s :=
    dropEndWhile_append_takeEndWhile isBlank (trimLeft s)
  have left : trimLeft s ≠ [] := fun none_ => filled (List.append_eq_nil_iff.1 (whole.trans none_)).1
  obtain ⟨d,t,begun,first⟩ := dropWhile_isBlank_cons left
  cases held : trim s with
  | nil => exact absurd held filled
  | cons e u =>
    rw [held,trimLeft,begun,List.cons_append] at whole
    exact ⟨e,u,rfl,(List.cons.inj whole).1 ▸ first⟩

theorem trimRight_append (trimmed : Trimmed note) (s : Text) : trimRight (s ++ note) = s ++ note := by
  obtain ⟨r,c,rfl,plain⟩ := trimmed.ends
  unfold trimRight dropEndWhile
  rw [← List.append_assoc,List.reverse_concat,List.dropWhile_cons_of_neg (by simp [plain]),
    List.reverse_cons,List.reverse_reverse]

/-- A note on a new line keeps all of what stands before it but the blanks at its beginning. -/
theorem trim_append_feed (trimmed : Trimmed note) (s : Text) :
    trim (s ++ '\n' :: note) = if trimLeft s = [] then note else trimLeft s ++ '\n' :: note := by
  have feed : isBlank '\n' = true := by decide
  obtain ⟨c,r,begun,plain⟩ := trimmed.begins
  have dropped : ('\n' :: note).dropWhile isBlank = note := by
    rw [List.dropWhile_cons_of_pos feed,begun,List.dropWhile_cons_of_neg (by simp [plain])]
  have left : trimLeft (s ++ '\n' :: note) =
      if trimLeft s = [] then note else trimLeft s ++ '\n' :: note := by
    unfold trimLeft
    rw [List.dropWhile_append,dropped]
    simp only [List.isEmpty_iff]
  rw [trim,left]
  split
  · exact trimRight_append trimmed []
  · rw [List.append_cons]
    exact trimRight_append trimmed _

theorem join_concat (between : Text) (parts : List Text) (p : Text) :
    join between (parts ++ [p]) = if parts = [] then p else join between parts ++ (between ++ p) := by
  induction parts with
  | nil => simp [join,List.intercalate]
  | cons q rest ih =>
    cases rest with
    | nil => simp [join,List.intercalate]
    | cons r rest =>
      have shape (parts : List Text) :
          join between (q :: r :: parts) = q ++ (between ++ join between (r :: parts)) := by
        simp [join,List.intercalate]
      rw [if_neg (by simp)] at ih ⊢
      rw [List.cons_append,List.cons_append,shape,shape,← List.cons_append,ih]
      simp only [List.append_assoc]

end Text

namespace Progress
open Text
variable {s t note : Text} {bound : Int}

theorem lastChars_suffix (bound : Int) (s : Text) : lastChars bound s <:+ s := by
  unfold lastChars
  split
  · exact List.suffix_refl s
  · exact List.drop_suffix _ s

theorem length_lastChars (room : 0 < bound) (beyond : bound < s.length) :
    ((lastChars bound s).length : Int) = bound := by
  rw [lastChars,if_neg (by omega),if_pos room,List.length_drop]
  omega

/-- What the last characters of a text end with, they end with as well if it is no longer than the bound. -/
theorem suffix_lastChars (room : 0 < bound) (inside : t <:+ s) (short : (t.length : Int) ≤ bound) :
    t <:+ lastChars bound s := by
  by_cases fits : (s.length : Int) ≤ bound
  · rwa [lastChars,if_pos fits]
  · refine List.suffix_of_suffix_length_le inside (lastChars_suffix bound s) ?_
    have size := length_lastChars room (Int.not_le.1 fits)
    omega

theorem dropFirstLine_suffix (s : Text) : dropFirstLine s <:+ s := by
  unfold dropFirstLine
  dsimp only
  split
  · exact List.suffix_refl s
  · exact (List.drop_suffix _ _).trans (List.dropWhile_suffix _)

theorem dropFirstLine_ne_nil (filled : s ≠ []) : dropFirstLine s ≠ [] := by
  unfold dropFirstLine
  dsimp only
  split
  · exact filled
  · rename_i rest
    exact fun none_ => rest (List.isEmpty_iff.2 none_)

/-- The line feed that is cut off is the first one, so the last line stays. -/
theorem suffix_dropFirstLine (ends : '\n' :: note <:+ s) : note <:+ dropFirstLine s := by
  have rest : note <:+ (s.dropWhile (· ≠ '\n')).drop 1 := by
    obtain ⟨front,rfl⟩ := ends
    induction front with
    | nil => simp
    | cons c front ih =>
      by_cases feed : c = '\n'
      · rw [List.cons_append,List.dropWhile_cons_of_neg (by simp [feed]),List.drop_one,List.tail_cons]
        exact (List.suffix_cons _ _).trans (List.suffix_append _ _)
      · rwa [List.cons_append,List.dropWhile_cons_of_pos (by simp [feed])]
  unfold dropFirstLine
  dsimp only
  split
  · exact (List.suffix_cons _ _).trans ends
  · exact rest

/-- What the given texts say, without the blanks around it. -/
def notes (texts : List Text) : List Text := (texts.map trim).filter fun note => !note.isEmpty

def appendSummaries (p : Progress) (texts : List Text) (bound : Int) : Progress :=
  texts.foldl (fun p text => p.appendSummary text bound) p

/-- A summary of the notes so far: their end, and the whole of the last one if there is room for it. -/
structure Recent (bound : Int) (notes : List Text) (summary : Text) : Prop where
  bounded : (summary.length : Int) ≤ bound
  suffix : summary <:+ join ['\n'] notes
  filled : notes ≠ [] → summary ≠ []
  newest : ∀ note, notes.getLast? = some note → (note.length : Int) < bound → note <:+ summary

section Append
variable {notes : List Text} {summary all : Text}

/-- A summary with one more note, before it is cut. -/
structure Joined (notes : List Text) (note all : Text) : Prop where
  suffix : all <:+ join ['\n'] (notes ++ [note])
  filled : all ≠ []
  ends : all = note ∨ '\n' :: note <:+ all

theorem Recent.joined (recent : Recent bound notes summary) (trimmed : Trimmed note) :
    Joined notes note (trim (summary ++ '\n' :: note)) := by
  have filled : note ≠ [] := by
    obtain ⟨_,_,rfl,_⟩ := trimmed.begins
    simp
  rw [trim_append_feed trimmed]
  by_cases blank_ : trimLeft summary = []
  · rw [if_pos blank_]
    refine ⟨?_,filled,.inl rfl⟩
    rw [join_concat]
    split
    · exact List.suffix_refl note
    · exact (List.suffix_append _ _).trans (List.suffix_append _ _)
  · rw [if_neg blank_]
    have inside : trimLeft summary <:+ join ['\n'] notes :=
      (List.dropWhile_suffix _).trans recent.suffix
    have noted : notes ≠ [] := by
      rintro rfl
      exact blank_ (List.suffix_nil.1 inside)
    refine ⟨?_,by simp,.inr (List.suffix_append _ _)⟩
    rw [join_concat,if_neg noted]
    obtain ⟨front,same⟩ := inside
    exact ⟨front,by rw [← same,List.append_assoc]; rfl⟩

/-- The cut keeps the bound, and a note that is shorter than the bound. -/
theorem Joined.recent (joined : Joined notes note all) (room : 0 < bound) :
    Recent bound (notes ++ [note])
      (if bound < all.length then dropFirstLine (lastChars bound all) else all) := by
  have last : (notes ++ [note]).getLast? = some note := List.getLast?_concat
  by_cases beyond : bound < all.length
  · rw [if_pos beyond]
    have size := length_lastChars room beyond
    have cut := dropFirstLine_suffix (lastChars bound all)
    refine ⟨?_,cut.trans ((lastChars_suffix bound all).trans joined.suffix),fun _ => ?_,?_⟩
    · have shorter := cut.length_le
      omega
    · refine dropFirstLine_ne_nil fun none_ => ?_
      rw [none_] at size
      exact absurd size (by simp only [List.length_nil]; omega)
    · intro newest same short
      cases last.symm.trans same
      rcases joined.ends with rfl | ends
      · omega
      · exact suffix_dropFirstLine (suffix_lastChars room ends (by simp only [List.length_cons]; omega))
  · rw [if_neg beyond]
    refine ⟨Int.not_lt.1 beyond,joined.suffix,fun _ => joined.filled,fun newest same _ => ?_⟩
    cases last.symm.trans same
    rcases joined.ends with rfl | ends
    · exact List.suffix_refl _
    · exact (List.suffix_cons _ _).trans ends

end Append

theorem notes_concat (texts : List Text) (text : Text) :
    notes (texts ++ [text]) = if trim text = [] then notes texts else notes texts ++ [trim text] := by
  unfold notes
  rw [List.map_append,List.filter_append]
  by_cases nothing : trim text = []
  · simp [nothing]
  · simp [nothing]

/-- Each text that is added leaves a summary of the notes so far. -/
theorem Recent.appendSummary {texts : List Text} {p : Progress} (recent : Recent bound (notes texts) p.summary)
    (room : 0 < bound) (text : Text) :
    Recent bound (notes (texts ++ [text])) (p.appendSummary text bound).summary := by
  rw [notes_concat]
  unfold Progress.appendSummary
  by_cases nothing : trim text = []
  · simpa [nothing] using recent
  · rw [if_neg nothing,if_neg (by simpa using nothing)]
    exact (recent.joined (trimmed_trim nothing)).recent room

theorem Recent.appendSummaries {p : Progress} (recent : Recent bound [] p.summary) (room : 0 < bound)
    (texts : List Text) : Recent bound (notes texts) (p.appendSummaries texts bound).summary := by
  induction texts using List.reverseRecOn with
  | nil => exact recent
  | append_singleton texts text ih =>
    rw [Progress.appendSummaries,List.foldl_concat]
    exact ih.appendSummary room text

/-- A summary is all that is changed. -/
theorem appendSummaries_eq (p : Progress) (texts : List Text) (bound : Int) :
    p.appendSummaries texts bound = { p with summary := (p.appendSummaries texts bound).summary } := by
  induction texts using List.reverseRecOn with
  | nil => rfl
  | append_singleton texts text ih =>
    have last : p.appendSummaries (texts ++ [text]) bound =
        (p.appendSummaries texts bound).appendSummary text bound := List.foldl_concat ..
    rw [last]
    generalize p.appendSummaries texts bound = q at ih
    unfold Progress.appendSummary
    dsimp only
    split
    · exact ih
    · rw [ih]

/-- Whatever texts are added to the summary of a new progress, it has at most as many characters as the bound
says after each of them, it is the end of all notes so far, one on a line, there is something in it once there
is a note, and it ends with the whole of the newest note if that one is shorter than the bound. Nothing else of
the progress changes. -/
theorem appendSummaries_recent (id root output : Text) (total : Int) (created updated : Float) {bound : Int}
    (room : 1 ≤ bound) (texts : List Text) :
    let begun : Progress := { id, root, output, total, created, updated }
    let p := begun.appendSummaries texts bound
    (p.summary.length : Int) ≤ bound ∧
    p.summary <:+ join ['\n'] (notes texts) ∧
    (notes texts ≠ [] → p.summary ≠ []) ∧
    (∀ newest, (notes texts).getLast? = some newest → (newest.length : Int) < bound → newest <:+ p.summary) ∧
    p = { begun with summary := p.summary } := by
  intro begun p
  have fresh : Recent bound [] begun.summary :=
    ⟨(by simp [begun]; omega),List.suffix_refl _,fun filled => absurd rfl filled,fun _ none_ => by cases none_⟩
  have recent : Recent bound (notes texts) p.summary := fresh.appendSummaries room texts
  exact ⟨recent.bounded,recent.suffix,recent.filled,recent.newest,begun.appendSummaries_eq texts bound⟩

/-- A note of two lines is cut to the second one, and the next note leaves no room for a line before it. A text of
blanks is no note. -/
theorem appendSummaries_recent_lines :
    let begun : Progress := { id := [], root := [], output := [], created := 0, updated := 0 }
    let texts : List Text := [" one\n","\t","two\nthree","four "]
    let p := begun.appendSummaries texts 8
    (begun.appendSummaries (texts.take 3) 8).summary = "three".toList ∧ p.summary = "four".toList ∧
      p.summary.length ≤ 8 ∧ p.summary <:+ "one\ntwo\nthree\nfour".toList ∧ "four".toList <:+ p.summary := by
  intro begun texts p
  obtain ⟨bounded,suffix,_,newest,_⟩ := appendSummaries_recent [] [] [] 0 0 0 (by decide : 1 ≤ (8 : Int)) texts
  refine ⟨by decide +kernel,by decide +kernel,Int.ofNat_le.1 bounded,suffix,?_⟩
  exact newest _ (by decide +kernel) (by decide +kernel)

end Progress

end Recast
