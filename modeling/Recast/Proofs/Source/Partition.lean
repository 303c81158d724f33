import Mathlib.Algebra.BigOperators.Group.List.Basic
import Mathlib.Algebra.Ring.Int.Defs
import Mathlib.Data.List.Find
import Mathlib.Data.List.Infix
import Mathlib.Data.List.TakeWhile
import Recast.Proofs.Text.Respelling
import Recast.Source.Chunk

/-! The division of a text into chunks. A chunk ends on the first line that makes it longer than the
budget with as many blocks closed as opened, and nothing else is a division of this kind. -/
namespace Recast

namespace Text

theorem trim_append {brk : Text} (white : blank brk = true) (body : Text) :
    trim (body ++ brk) = trim body := by
  have white_ := List.all_eq_true.1 white
  unfold trim trimLeft trimRight dropEndWhile
  rw [List.dropWhile_append]
  split
  · rename_i none_
    rw [List.isEmpty_iff.1 none_,List.dropWhile_eq_nil_iff.2 white_]
  · rw [List.reverse_append,List.dropWhile_append_of_pos]
    simpa using white_

theorem blank_bare {s line : Text} (member : line ∈ lines s) : blank (bare line) = blank line := by
  obtain ⟨brk,shape,_,breaks⟩ := exists_bare member
  have white : brk.all isBlank = true :=
    List.all_eq_true.2 fun c inside => isBlank_of_isBreak (breaks c inside)
  conv_rhs => rw [shape]
  unfold blank
  rw [List.all_append,white,Bool.and_true]

theorem trim_bare {s line : Text} (member : line ∈ lines s) : trim (bare line) = trim line := by
  obtain ⟨brk,shape,_,breaks⟩ := exists_bare member
  conv_rhs => rw [shape]
  exact (trim_append (List.all_eq_true.2 fun c inside => isBlank_of_isBreak (breaks c inside)) _).symm

end Text

namespace Chunk
open Text
variable {settings : LanguageSettings}

/-- Lines that can end a chunk: they are longer than the budget and close what they open. -/
def Full (settings : LanguageSettings) (ls : List Text) : Prop :=
  settings.chunkSize < ls.flatten.length ∧ (ls.map (delta settings.symbols)).sum = 0

/-- No line before the last one can end the chunk. -/
def Least (settings : LanguageSettings) (ls : List Text) : Prop :=
  ∀ front, front <+: ls → front ≠ ls → ¬ Full settings front

/-- Texts each of which ends as soon as it can; only the last may end before. -/
structure Greedy (settings : LanguageSettings) (texts : List Text) : Prop where
  filled : ∀ t ∈ texts, t ≠ []
  full : ∀ t ∈ texts.dropLast, Full settings (lines t)
  least : ∀ t ∈ texts, Least settings (lines t)

theorem full_concat {ls : List Text} {line : Text} : Full settings (ls ++ [line]) ↔
    settings.chunkSize < ls.flatten.length + line.length ∧
      (ls.map (delta settings.symbols)).sum + delta settings.symbols line = 0 := by
  simp [Full]

theorem Greedy.tail {t : Text} {texts : List Text} (greedy : Greedy settings (t :: texts)) :
    Greedy settings texts where
  filled u member := greedy.filled u (List.mem_cons_of_mem t member)
  full u member := by
    cases texts with
    | nil => simp at member
    | cons first texts => exact greedy.full u (List.mem_cons_of_mem t member)
  least u member := greedy.least u (List.mem_cons_of_mem t member)

/-- Neither the lines nor the first few of them can end a chunk. -/
def Short (settings : LanguageSettings) (ls : List Text) : Prop :=
  ∀ front, front <+: ls → ¬ Full settings front

theorem short_nil : Short settings [] := by
  intro front starts full
  rw [List.prefix_nil.1 starts] at full
  exact Nat.not_lt_zero _ full.1

theorem Short.concat {ls : List Text} {line : Text} (short : Short settings ls)
    (open_ : ¬ Full settings (ls ++ [line])) : Short settings (ls ++ [line]) := by
  intro front starts
  rcases List.prefix_concat_iff.1 starts with rfl | before
  · exact open_
  · exact short front before

theorem Short.least {ls : List Text} (short : Short settings ls) (line : Text) :
    Least settings (ls ++ [line]) := by
  intro front starts other
  exact short front ((List.prefix_concat_iff.1 starts).resolve_left other)

/-- The lines gathered into a chunk, `ls` of which are held already, end where they first can. -/
theorem gather_least {ls : List Text} (short : Short settings ls) (rest : List Text) :
    let groups := gather settings ls.reverse ls.flatten.length (ls.map (delta settings.symbols)).sum rest
    (∀ g ∈ groups, g ≠ [] ∧ Least settings g) ∧ ∀ g ∈ groups.dropLast, Full settings g := by
  induction rest generalizing ls with
  | nil =>
    unfold gather
    split
    · simp
    · rename_i some_
      have least : Least settings ls := fun front starts _ => short front starts
      simpa using And.intro (by simpa using some_) least
  | cons line rest ih =>
    have held : line :: ls.reverse = (ls ++ [line]).reverse := by simp
    have length : ls.flatten.length + line.length = (ls ++ [line]).flatten.length := by simp
    have level : (ls.map (delta settings.symbols)).sum + delta settings.symbols line =
        ((ls ++ [line]).map (delta settings.symbols)).sum := by simp
    unfold gather
    dsimp only
    by_cases full : Full settings (ls ++ [line])
    · obtain ⟨filled,later⟩ := ih short_nil
      rw [if_pos (by simpa using full_concat.1 full),(full_concat.1 full).2,held,List.reverse_reverse]
      constructor
      · intro g member
        rcases List.mem_cons.1 member with rfl | behind
        · exact ⟨by simp,short.least line⟩
        · exact filled g behind
      · intro g member
        cases shape : gather settings [] 0 0 rest with
        | nil => simp [shape] at member
        | cons first groups =>
          rw [shape,List.dropLast_cons_of_ne_nil (by simp)] at member
          rcases List.mem_cons.1 member with rfl | behind
          · exact full
          · apply later
            simpa [shape] using behind
    · rw [if_neg (by simpa using mt full_concat.2 full),held,length,level]
      exact ih (short.concat full)

/-- The lines of each chunk are still lines when they stand alone. -/
theorem lines_of_mem_gather {text : Text} {g : List Text}
    (member : g ∈ gather settings [] 0 0 (lines text)) : lines g.flatten = g := by
  obtain ⟨front,back,shape⟩ := List.append_of_mem member
  have whole := flatten_gather settings [] 0 0 (lines text)
  rw [shape] at whole
  have within : lines text = front.flatten ++ g ++ back.flatten := by simpa using whole.symm
  exact lines_flatten_of_within within

theorem map_text_split (settings : LanguageSettings) (text : Text) :
    (split settings text).map Chunk.text = (gather settings [] 0 0 (lines text)).map List.flatten := by
  unfold split number
  apply List.ext_getElem
  · simp
  · simp

theorem map_index_split (settings : LanguageSettings) (text : Text) :
    (split settings text).map Chunk.index = List.range (split settings text).length := by
  unfold split number
  apply List.ext_getElem
  · simp
  · simp

theorem flatMap_lines_split (settings : LanguageSettings) (text : Text) :
    ((split settings text).map Chunk.text).flatMap lines = lines text := by
  rw [map_text_split,List.flatMap_map,List.flatMap_congr fun g member => lines_of_mem_gather member]
  simpa using flatten_gather settings [] 0 0 (lines text)

theorem flatten_split (settings : LanguageSettings) (text : Text) :
    ((split settings text).map Chunk.text).flatten = text := by
  rw [← flatten_flatMap_lines,flatMap_lines_split,flatten_lines]

theorem greedy_split (settings : LanguageSettings) (text : Text) :
    Greedy settings ((split settings text).map Chunk.text) := by
  obtain ⟨filled,full⟩ := gather_least (short_nil : Short settings []) (lines text)
  rw [map_text_split]
  constructor
  · intro t member none_
    obtain ⟨g,inside,rfl⟩ := List.mem_map.1 member
    apply (filled g inside).1
    rw [← lines_of_mem_gather inside,none_]
    rfl
  · intro t member
    rw [← List.map_dropLast] at member
    obtain ⟨g,inside,rfl⟩ := List.mem_map.1 member
    rw [lines_of_mem_gather (List.mem_of_mem_dropLast inside)]
    exact full g inside
  · intro t member
    obtain ⟨g,inside,rfl⟩ := List.mem_map.1 member
    rw [lines_of_mem_gather inside]
    exact (filled g inside).2

/-- Of two divisions of the same lines neither begins with the shorter text. -/
theorem Greedy.not_shorter {t u : Text} {texts others : List Text} (first : Greedy settings (t :: texts))
    (second : Greedy settings (u :: others))
    (same : lines t ++ texts.flatMap lines = lines u ++ others.flatMap lines)
    (shorter : lines t <+: lines u) : lines t = lines u := by
  by_contra other
  have least := second.least u (by simp) (lines t) shorter other
  cases texts with
  | nil =>
    rw [List.flatMap_nil,List.append_nil] at same
    exact other (List.IsPrefix.eq_of_length_le shorter (by simp [same]))
  | cons next texts => exact least (first.full t (by simp))

theorem Greedy.unique {texts others : List Text} (first : Greedy settings texts)
    (second : Greedy settings others) (same : texts.flatMap lines = others.flatMap lines) :
    texts = others := by
  induction texts generalizing others with
  | nil =>
    cases others with
    | nil => rfl
    | cons u others =>
      have none_ := List.append_eq_nil_iff.1 same.symm
      exact absurd none_.1 (lines_ne_nil (second.filled u (by simp)))
  | cons t texts ih =>
    cases others with
    | nil =>
      have none_ := List.append_eq_nil_iff.1 same
      exact absurd none_.1 (lines_ne_nil (first.filled t (by simp)))
    | cons u others =>
      rw [List.flatMap_cons,List.flatMap_cons] at same
      have begun : lines t = lines u := by
        have left : lines t <+: lines u ++ others.flatMap lines := ⟨_,same⟩
        rcases List.prefix_or_prefix_of_prefix left (List.prefix_append ..) with shorter | longer
        · exact first.not_shorter second same shorter
        · exact (second.not_shorter first same.symm longer).symm
      have equal : t = u := by rw [← flatten_lines t,begun,flatten_lines]
      rw [begun] at same
      rw [equal,ih first.tail second.tail (List.append_cancel_left same)]

/-- Whether a text declares a type is said by the first of its lines that is not blank. -/
theorem isStructural_eq (text : Text) : isStructural settings text =
    ((lines text).find? fun line => !blank line).any (isBlockStart settings) := by
  have same : (lines text).find? ((fun line => !blank line) ∘ bare) =
      (lines text).find? fun line => !blank line :=
    List.find?_congr fun line member => congrArg (!·) (blank_bare member)
  unfold isStructural bareLines
  rw [List.find?_map,same]
  cases found : (lines text).find? fun line => !blank line with
  | none => rfl
  | some line =>
    simp only [Option.map_some,Option.any_some,isBlockStart,trim_bare (List.mem_of_find?_eq_some found)]

theorem isStructural_iff {text : Text} : isStructural settings text = true ↔
    ∃ front line back, lines text = front ++ line :: back ∧ (∀ l ∈ front, blank l = true) ∧
      blank line = false ∧ isBlockStart settings line = true := by
  rw [isStructural_eq,Option.any_eq_true]
  simp only [List.find?_eq_some_iff_append,Bool.not_eq_true',Bool.not_not]
  constructor
  · rintro ⟨line,⟨dark,front,back,shape,white⟩,starts⟩
    exact ⟨front,line,back,shape,white,dark,starts⟩
  · rintro ⟨front,line,back,shape,white,dark,starts⟩
    exact ⟨line,⟨dark,front,back,shape,white⟩,starts⟩

/-- Chunks are numbered from zero, and a chunk is one of a type exactly if its first line that is not
blank declares one. Their texts are whole lines that make up the text, and each of them ends as soon as
it can; there is no other list of texts of which this is true. -/
theorem eq_split_iff (settings : LanguageSettings) (text : Text) :
    (split settings text).map Chunk.index = List.range (split settings text).length ∧
    (∀ texts : List Text, texts = (split settings text).map Chunk.text ↔
      texts.flatten = text ∧ texts.flatMap lines = lines text ∧ Greedy settings texts) ∧
    ∀ c ∈ split settings text, c.structural = true ↔
      ∃ front line back, lines c.text = front ++ line :: back ∧ (∀ l ∈ front, blank l = true) ∧
        blank line = false ∧ isBlockStart settings line = true := by
  refine ⟨?_,fun texts => ⟨?_,?_⟩,?_⟩
  · apply List.ext_getElem
    · simp
    · simp [split,number]
  · rintro rfl
    exact ⟨flatten_split settings text,flatMap_lines_split settings text,greedy_split settings text⟩
  · rintro ⟨-,whole,greedy⟩
    apply greedy.unique (greedy_split settings text)
    rw [whole,flatMap_lines_split]
  · intro c member
    obtain ⟨i,bound,rfl⟩ := List.mem_mapIdx.1 member
    exact isStructural_iff

end Chunk

end Recast
