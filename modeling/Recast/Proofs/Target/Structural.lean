import Mathlib.Data.List.TakeWhile
import Recast.Proofs.Text.Respelling
import Recast.Target.Blocks

/-! Lines that declare a package or import something. Such a line is read by its first word, and a
package line by its three parts; a line keeps its kind when its names change. -/
namespace Recast
open Text

/-- Characters of dotted names. -/
def isDotted (c : Char) : Bool := isWord c || c = '.'

theorem isBreak_of_isDotted {c : Char} (dotted : isDotted c = true) : isBreak c = false := by
  refine Bool.eq_false_iff.2 fun breaks => ?_
  unfold isDotted at dotted
  rw [isWord_of_isBlank (isBlank_of_isBreak breaks)] at dotted
  have point : c = '.' := by simpa using dotted
  subst point
  exact absurd breaks (by decide)

theorem isWord_of_isAsciiWord {c : Char} (ascii : isAsciiWord c = true) : isWord c = true := by
  have small : c.toNat < 128 := by
    unfold isAsciiWord at ascii
    simp only [Char.isAlphanum,isAlpha_iff,isUpper_iff,isLower_iff,Char.isDigit,Bool.or_eq_true,
      Bool.and_eq_true,decide_eq_true_eq,UInt32.le_iff_toNat_le] at ascii
    rcases ascii with ((⟨_,upper⟩ | ⟨_,lower⟩) | ⟨_,digit⟩) | rfl
    · exact Nat.lt_of_le_of_lt upper (by decide)
    · exact Nat.lt_of_le_of_lt lower (by decide)
    · exact Nat.lt_of_le_of_lt digit (by decide)
    · decide
  unfold isWord
  rw [if_pos small]
  exact ascii

namespace Target

theorem isAsciiWord_of_isNameStart {c : Char} (begins : isNameStart c = true) : isAsciiWord c = true := by
  unfold isNameStart at begins
  unfold isAsciiWord Char.isAlphanum
  simp only [Bool.or_eq_true] at begins ⊢
  rcases begins with letter | low
  · exact .inl (.inl letter)
  · exact .inr low

private theorem mapNames_held (rename : Text → Text) {held w s : Text} (some_ : held ≠ [])
    (words : ∀ c ∈ w, isAsciiWord c = true) (ended : s.head?.any isAsciiWord = false) :
    mapNames rename held (w ++ s) = rename (held.reverse ++ w) ++ mapNames rename [] s := by
  have filled : held.isEmpty = false := by simpa using some_
  induction w generalizing held with
  | nil =>
    cases s with
    | nil => simp [mapNames,filled]
    | cons c r =>
      have plain : isAsciiWord c = false := by simpa using ended
      have other : isNameStart c = false := Bool.eq_false_iff.2 fun begins =>
        Bool.false_ne_true (plain.symm.trans (isAsciiWord_of_isNameStart begins))
      simp [mapNames,filled,plain,other]
  | cons d w ih =>
    rw [List.cons_append,mapNames,if_neg (by simp [filled]),if_pos (words d (by simp)),
      ih (by simp) (fun c member => words c (by simp [member])) (by simp)]
    simp

/-- Names are changed run by run. -/
theorem changesRuns_mapNames (rename : Text → Text) :
    ChangesRuns isNameStart isAsciiWord rename (mapNames rename []) where
  within_ := fun _ => isAsciiWord_of_isNameStart
  nil := rfl
  other := fun c s plain => by simp [mapNames,plain]
  run := fun w s run ended => by
    obtain ⟨begins,all⟩ := run
    cases w with
    | nil => cases begins
    | cons c w =>
      have started : isNameStart c = true := by simpa using begins
      have held := mapNames_held rename (show [c] ≠ [] by simp) (w := w)
        (fun d member => all d (by simp [member])) ended
      simpa [mapNames,started] using held

end Target

namespace Target

theorem isDotted_of_isAsciiWord {c : Char} (word : isAsciiWord c = true) : isDotted c = true := by
  unfold isDotted
  rw [isWord_of_isAsciiWord word]
  rfl

theorem isDotted_of_isNameStart {c : Char} (begins : isNameStart c = true) : isDotted c = true :=
  isDotted_of_isAsciiWord (isAsciiWord_of_isNameStart begins)

theorem isBlank_of_isDotted {c : Char} (dotted : isDotted c = true) : isBlank c = false := by
  refine Bool.eq_false_iff.2 fun white => ?_
  unfold isDotted at dotted
  rw [isWord_of_isBlank white] at dotted
  have point : c = '.' := by simpa using dotted
  subst point
  exact absurd white (by decide)

theorem isNameStart_of_isBlank {c : Char} (white : isBlank c = true) : isNameStart c = false :=
  Bool.eq_false_iff.2 fun begins =>
    Bool.false_ne_true ((isBlank_of_isDotted (isDotted_of_isNameStart begins)).symm.trans white)

theorem any_isAsciiWord_of_endsWord {s : Text} (ended : endsWord s = true) :
    s.head?.any isAsciiWord = false := by
  cases s with
  | nil => rfl
  | cons c s =>
    have other : isWord c = false := by simpa [endsWord] using ended
    refine Bool.eq_false_iff.2 fun word => ?_
    rw [isWord_of_isAsciiWord (by simpa using word)] at other
    cases other

theorem trimLeft_append {indent s : Text} (white : blank indent = true)
    (dark : s.head?.any isBlank = false) : trimLeft (indent ++ s) = s :=
  dropWhile_append (List.all_eq_true.1 white) dark

/-- A text is the blanks it begins with and what is left without them. -/
theorem indent_trimLeft (s : Text) : ∃ indent, blank indent = true ∧ s = indent ++ trimLeft s :=
  ⟨s.takeWhile isBlank,List.all_takeWhile,List.takeWhile_append_dropWhile.symm⟩

theorem behindBlanks?_eq_some_iff {s rest : Text} : behindBlanks? s = some rest ↔
    ∃ gap, s = gap ++ rest ∧ blank gap = true ∧ gap ≠ [] ∧ rest.head?.any isBlank = false := by
  cases s with
  | nil =>
    constructor
    · intro found
      cases found
    · rintro ⟨gap,same,_,some_,_⟩
      exact absurd (List.append_eq_nil_iff.1 same.symm).1 some_
  | cons c r =>
    rw [behindBlanks?]
    constructor
    · intro found
      split at found
      · rename_i white
        obtain ⟨indent,blank_,same⟩ := indent_trimLeft r
        rw [← Option.some.inj found]
        refine ⟨c :: indent,by rw [List.cons_append,← same],?_,by simp,head_dropWhile _ _⟩
        unfold blank at *
        rw [List.all_cons,white,blank_]
        rfl
      · exact absurd found (by simp)
    · rintro ⟨gap,same,white,some_,dark⟩
      cases gap with
      | nil => exact absurd rfl some_
      | cons d gap =>
        obtain ⟨rfl,rfl⟩ := List.cons.inj same
        unfold blank at white
        rw [List.all_cons,Bool.and_eq_true] at white
        rw [if_pos white.1]
        exact congrArg some (trimLeft_append white.2 dark)

theorem take_front (front back : Text) :
    (front ++ back).take ((front ++ back).length - back.length) = front := by
  rw [List.length_append,Nat.add_sub_cancel,List.take_left]

/-- The parts of a package line around its name. -/
structure PackageLine (before name behind : Text) : Prop where
  front : ∃ indent w gap, before = indent ++ (w ++ gap) ∧ blank indent = true ∧ w ∈ packageWords ∧
    blank gap = true ∧ gap ≠ []
  begins : name.head?.any isNameStart = true
  dotted : ∀ c ∈ name, isDotted c = true
  ended : behind.head?.any isDotted = false
  ends : isPackageEnd behind = true

/-- The word that a package line begins with. -/
theorem packageWord?_append {w : Text} (member : w ∈ packageWords) (s : Text) :
    packageWords.findSome? (fun v => after? v (w ++ s)) = some s := by
  unfold packageWords at *
  rcases List.mem_cons.1 member with rfl | later
  · rw [List.findSome?_cons,after?_eq_some_iff.2 rfl]
  · rw [List.mem_singleton.1 later,List.findSome?_cons]
    have other : after? "package" ("namespace" ++ s) = none := rfl
    rw [other,List.findSome?_cons,after?_eq_some_iff.2 rfl]

theorem dark_packageWord {w : Text} (member : w ∈ packageWords) (s : Text) :
    (w ++ s).head?.any isBlank = false := by
  unfold packageWords at member
  rcases List.mem_cons.1 member with rfl | later
  · rfl
  · rw [List.mem_singleton.1 later]
    rfl

theorem PackageLine.parse {before name behind : Text} (line : PackageLine before name behind) :
    packageLine? (before ++ (name ++ behind)) = some (before,behind) := by
  obtain ⟨⟨indent,w,gap,rfl,white,word,blank_,some_⟩,begins,dotted,ended,ends⟩ := line
  have dark : (name ++ behind).head?.any isBlank = false := by
    cases name with
    | nil => cases begins
    | cons c name => exact isBlank_of_isDotted (dotted c (by simp))
  have trimmed : trimLeft (indent ++ (w ++ gap) ++ (name ++ behind)) = w ++ (gap ++ (name ++ behind)) := by
    rw [List.append_assoc,List.append_assoc,trimLeft_append white (dark_packageWord word _)]
  have rest : behindBlanks? (gap ++ (name ++ behind)) = some (name ++ behind) :=
    behindBlanks?_eq_some_iff.2 ⟨gap,rfl,blank_,some_,dark⟩
  have first : (name ++ behind).head?.any isNameStart = true := by
    cases name with
    | nil => cases begins
    | cons c name => exact begins
  unfold packageLine?
  dsimp only
  rw [trimmed,packageWord?_append word,Option.bind_some,rest]
  have dropped : (name ++ behind).dropWhile (fun c => isWord c || c = '.') = behind :=
    dropWhile_append dotted ended
  simp only [dropped,first,ends,take_front]
  rfl

theorem packageLine?_shape {line before behind : Text} (found : packageLine? line = some (before,behind)) :
    ∃ name, line = before ++ (name ++ behind) ∧ PackageLine before name behind := by
  unfold packageLine? at found
  dsimp only at found
  split at found
  · cases found
  · rename_i rest here
    split at found
    · rename_i fine
      obtain ⟨behindWord,word,blanks⟩ := Option.bind_eq_some_iff.1 here
      obtain ⟨w,member,after⟩ := List.exists_of_findSome?_eq_some word
      rw [after?_eq_some_iff] at after
      obtain ⟨gap,rfl,white,some_,_⟩ := behindBlanks?_eq_some_iff.1 blanks
      obtain ⟨indent,blank_,shape⟩ := indent_trimLeft line
      rw [after] at shape
      have whole : line = (indent ++ (w ++ gap)) ++ rest := by rw [shape]; simp
      have taken : line.take (line.length - rest.length) = indent ++ (w ++ gap) := by
        rw [whole,take_front]
      rw [taken] at found
      obtain ⟨rfl,rfl⟩ := Prod.mk.inj (Option.some.inj found)
      rw [Bool.and_eq_true] at fine
      refine ⟨rest.takeWhile fun c => isWord c || c = '.',?_,⟨indent,w,gap,rfl,blank_,member,white,some_⟩,
        ?_,fun c inside => List.all_eq_true.1 List.all_takeWhile c inside,head_dropWhile _ _,fine.2⟩
      · rw [List.takeWhile_append_dropWhile,whole]
      · cases rest with
        | nil => exact fine.1
        | cons c rest =>
          have dotted : isDotted c = true := isDotted_of_isNameStart fine.1
          change ((c :: rest).takeWhile isDotted).head?.any isNameStart = true
          rw [List.takeWhile_cons_of_pos dotted]
          exact fine.1
    · cases found

theorem isStructural_iff {line : Text} : isStructural line = true ↔
    ∃ w ∈ structuralWords, ∃ rest, trimLeft line = w ++ rest ∧ endsWord rest = true := by
  unfold isStructural
  rw [List.any_eq_true]
  constructor
  · rintro ⟨w,member,found⟩
    cases held : after? w (trimLeft line) with
    | none => simp [held] at found
    | some rest =>
      rw [held] at found
      exact ⟨w,member,rest,after?_eq_some_iff.1 held,found⟩
  · rintro ⟨w,member,rest,same,ended⟩
    exact ⟨w,member,by rw [after?_eq_some_iff.2 same]; exact ended⟩

theorem dark_structuralWord {w : Text} (member : w ∈ structuralWords) (s : Text) :
    (w ++ s).head?.any isBlank = false := by
  have all : ∀ w ∈ structuralWords, ∃ c r, w = c :: r ∧ isBlank c = false := by
    intro w member
    cases w with
    | nil => exact absurd member (by decide)
    | cons c r =>
      have heads : ∀ w ∈ structuralWords, w.head?.any isBlank = false := by decide
      exact ⟨c,r,rfl,heads _ member⟩
  obtain ⟨c,r,rfl,dark⟩ := all w member
  exact dark

theorem isStructural_of_shape {indent w rest : Text} (white : blank indent = true)
    (member : w ∈ structuralWords) (ended : endsWord rest = true) :
    isStructural (indent ++ (w ++ rest)) = true :=
  isStructural_iff.2 ⟨w,member,rest,trimLeft_append white (dark_structuralWord member rest),ended⟩

/-- The words of such lines, without the mark of one of them. -/
def keywords : List Text :=
  ["import","using","use","from","package","namespace","require","include"]

/-- Each of the words is one name, which a number sign may come before. -/
theorem structuralWord_shape {w : Text} (member : w ∈ structuralWords) :
    ∃ mark name, w = mark ++ name ∧ (mark = [] ∨ mark = ['#']) ∧ name ∈ keywords := by
  have all : ∀ w ∈ structuralWords,
      (w.takeWhile (· = '#') = [] ∨ w.takeWhile (· = '#') = ['#']) ∧ w.dropWhile (· = '#') ∈ keywords := by
    decide
  exact ⟨_,_,List.takeWhile_append_dropWhile.symm,(all w member).1,(all w member).2⟩

theorem keyword_shape {name : Text} (member : name ∈ keywords) :
    name.head?.any isNameStart = true ∧ ∀ c ∈ name, isAsciiWord c = true := by
  have all : ∀ name ∈ keywords, name.head?.any isNameStart = true ∧ name.all isAsciiWord = true := by
    decide
  exact ⟨(all name member).1,List.all_eq_true.1 (all name member).2⟩

/-- A word of package lines is a word that lines are read by, with no mark. -/
theorem packageWord_shape {w : Text} (member : w ∈ packageWords) :
    w ∈ structuralWords ∧ w ∈ keywords ∧ w.head? ≠ some '#' := by
  have all : ∀ w ∈ packageWords, w ∈ structuralWords ∧ w ∈ keywords ∧ w.head? ≠ some '#' := by decide
  exact all w member

theorem not_any_isWord_of_endsWord {s : Text} (ended : endsWord s = true) : s.head?.any isWord = false := by
  simpa [endsWord] using ended

theorem word_unique {v w s t : Text} (word : v ∈ structuralWords) (member : w ∈ packageWords)
    (same : v ++ s = w ++ t) (ended : endsWord s = true) (stopped : endsWord t = true) : v = w ∧ s = t := by
  obtain ⟨mark,name,rfl,marked,known⟩ := structuralWord_shape word
  obtain ⟨_,known_,unmarked⟩ := packageWord_shape member
  have words {name : Text} (known : name ∈ keywords) : ∀ c ∈ name, isWord c = true := fun c inside =>
    isWord_of_isAsciiWord ((keyword_shape known).2 c inside)
  rcases marked with rfl | rfl
  · exact append_inj_of_ended same (words known) (words known_) (not_any_isWord_of_endsWord ended)
      (not_any_isWord_of_endsWord stopped)
  · cases w with
    | nil => exact absurd known_ (by decide)
    | cons c w =>
      obtain ⟨rfl,_⟩ := List.cons.inj same
      exact absurd rfl unmarked

theorem endsWord_append {gap s : Text} (blank_ : blank gap = true) (some_ : gap ≠ []) :
    endsWord (gap ++ s) = true := by
  cases gap with
  | nil => exact absurd rfl some_
  | cons c gap =>
    have white : isBlank c = true := List.all_eq_true.1 blank_ c (by simp)
    simp [endsWord,isWord_of_isBlank white]

theorem PackageLine.structural {before name behind : Text} (line : PackageLine before name behind) :
    isStructural (before ++ (name ++ behind)) = true := by
  obtain ⟨⟨indent,w,gap,rfl,white,word,blank_,some_⟩,_,_,_,_⟩ := line
  have structural := isStructural_of_shape white (packageWord_shape word).1
    (endsWord_append (s := name ++ behind) blank_ some_)
  simpa using structural

theorem isNameStart_of_isPackageEnd {s : Text} (ends : isPackageEnd s = true) :
    ∀ c ∈ s, isNameStart c = false := by
  obtain ⟨indent,white,shape⟩ := indent_trimLeft s
  have front : ∀ c ∈ indent, isNameStart c = false := fun c member =>
    isNameStart_of_isBlank (List.all_eq_true.1 white c member)
  rw [shape]
  intro c member
  rcases List.mem_append.1 member with before | later
  · exact front c before
  · unfold isPackageEnd at ends
    cases held : trimLeft s with
    | nil => simp [held] at later
    | cons d r =>
      rw [held] at ends later
      simp only [Bool.and_eq_true,Bool.or_eq_true,decide_eq_true_eq] at ends
      rcases List.mem_cons.1 later with rfl | behind
      · rcases ends.1 with rfl | rfl <;> rfl
      · exact isNameStart_of_isBlank (List.all_eq_true.1 ends.2 c behind)

theorem ne_nil_of_mem_structuralWords {w : Text} (member : w ∈ structuralWords) : w ≠ [] := by
  rintro rfl
  exact absurd member (by decide)

theorem unfed_of_mem_structuralWords {w : Text} (member : w ∈ structuralWords) :
    ∀ c ∈ w, isReturnOrFeed c = false := by
  have none_ : ∀ w ∈ structuralWords, w.any isReturnOrFeed = false := by decide
  simpa using none_ w member

theorem trimLeft_append_of_ne_nil {s : Text} (dark : trimLeft s ≠ []) (t : Text) :
    trimLeft (s ++ t) = trimLeft s ++ t := by
  unfold trimLeft at *
  rw [List.dropWhile_append,if_neg (by simpa using dark)]

theorem isReturnOrFeed_of_mem_ending {line : Text} {c : Char} (member : c ∈ ending line) :
    isReturnOrFeed c = true :=
  List.all_eq_true.1 List.all_takeWhile c (List.mem_reverse.1 member)

theorem isBreak_of_isReturnOrFeed {c : Char} (feed : isReturnOrFeed c = true) : isBreak c = true := by
  unfold isReturnOrFeed at feed
  simp only [Bool.or_eq_true,decide_eq_true_eq] at feed
  rcases feed with rfl | rfl <;> rfl

theorem isWord_of_isReturnOrFeed {c : Char} (feed : isReturnOrFeed c = true) : isWord c = false :=
  isWord_of_isBlank (isBlank_of_isBreak (isBreak_of_isReturnOrFeed feed))

theorem dropEnding_append_ending (line : Text) : dropEnding line ++ ending line = line :=
  dropEndWhile_append_takeEndWhile isReturnOrFeed line

theorem getLast_dropEnding (line : Text) : (dropEnding line).getLast?.any isReturnOrFeed = false := by
  unfold dropEnding dropEndWhile
  rw [List.getLast?_reverse]
  exact head_dropWhile isReturnOrFeed line.reverse

theorem ending_append {body brk : Text} (stopped : body.getLast?.any isReturnOrFeed = false)
    (feeds : ∀ c ∈ brk, isReturnOrFeed c = true) :
    dropEnding (body ++ brk) = body ∧ ending (body ++ brk) = brk := by
  have first : dropEnding (body ++ brk) = body := by
    unfold dropEnding dropEndWhile
    rw [List.reverse_append,dropWhile_append (fun c member => feeds c (List.mem_reverse.1 member))
      (by rwa [List.head?_reverse]),List.reverse_reverse]
  have whole := dropEnding_append_ending (body ++ brk)
  rw [first] at whole
  exact ⟨first,List.append_cancel_left whole⟩

theorem isStructural_dropEnding (line : Text) : isStructural (dropEnding line) = isStructural line := by
  have whole := dropEnding_append_ending line
  have feeds : ∀ c ∈ ending line, isReturnOrFeed c = true := fun c => isReturnOrFeed_of_mem_ending
  generalize dropEnding line = body at whole ⊢
  generalize ending line = brk at whole feeds
  subst whole
  rw [Bool.eq_iff_iff,isStructural_iff,isStructural_iff]
  constructor
  · rintro ⟨w,member,rest,same,ended⟩
    have filled : trimLeft body ≠ [] := by
      rw [same]
      exact fun empty => ne_nil_of_mem_structuralWords member (List.append_eq_nil_iff.1 empty).1
    refine ⟨w,member,rest ++ brk,by rw [trimLeft_append_of_ne_nil filled,same,List.append_assoc],?_⟩
    cases rest with
    | nil =>
      cases brk with
      | nil => rfl
      | cons c brk => simp [endsWord,isWord_of_isReturnOrFeed (feeds c (by simp))]
    | cons c rest => exact ended
  · rintro ⟨w,member,rest,same,ended⟩
    have filled : trimLeft body ≠ [] := by
      intro empty
      have white : ∀ c ∈ body ++ brk, isBlank c = true := by
        intro c inside
        rcases List.mem_append.1 inside with front | back
        · exact List.dropWhile_eq_nil_iff.1 empty c front
        · exact isBlank_of_isBreak (isBreak_of_isReturnOrFeed (feeds c back))
      have none_ : trimLeft (body ++ brk) = [] := List.dropWhile_eq_nil_iff.2 white
      rw [none_] at same
      exact ne_nil_of_mem_structuralWords member (List.append_eq_nil_iff.1 same.symm).1
    rw [trimLeft_append_of_ne_nil filled] at same
    rcases List.append_eq_append_iff.1 same with ⟨more,whole,tail⟩ | ⟨past,whole,tail⟩
    · cases more with
      | nil => exact ⟨w,member,[],by simpa using whole.symm,rfl⟩
      | cons c more =>
        have feed := feeds c (by simp [tail])
        have inside : c ∈ w := by simp [whole]
        rw [unfed_of_mem_structuralWords member c inside] at feed
        cases feed
    · refine ⟨w,member,past,whole,?_⟩
      cases past with
      | nil => rfl
      | cons c past =>
        rw [tail] at ended
        exact ended

end Target

end Recast
