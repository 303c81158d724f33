import Recast.Proofs.Number.Numeral
import Recast.Proofs.Text.Line
import Recast.Source.Outline

/-! Outlines lose nothing: the bodies of an outline go back to where they were taken from. The lines
of a type are woven from its own lines and the bodies of its members, and each step of the placing
undoes one step of the weaving. -/
namespace Recast.Outline
open Text

/-- The word that every marker begins with. -/
def markerWord : Text := "@@BODY_"

/-- Lines of an outline, the bodies that they stand for from a number on, and the lines that both
were made from. -/
inductive Woven : Nat → List Line → List Text → List Text → Prop
  | nil (n : Nat) : Woven n [] [] []
  | own {n : Nat} {line : Text} {shown : List Line} {bodies ls : List Text} :
      Woven n shown bodies ls → Woven n (.own line :: shown) bodies (line :: ls)
  | body {n : Nat} {first : Text} {inner : List Text} {shown : List Line} {bodies ls : List Text} :
      Woven (n + 1) shown bodies ls →
      Woven n (.body n (indent first) :: shown) ((first :: inner).flatten :: bodies)
        (first :: inner ++ ls)

/-- A walk with an open body closes it before it goes on. -/
private theorem walk_woven_from (symbols : Symbols) (depth : Int) (count : Nat)
    (held ls : List Text) :
    (held = [] → Woven count (walk symbols depth count held ls).1
      (walk symbols depth count held ls).2 ls) ∧
    (held ≠ [] → ∃ inner later bodies, ls = inner ++ later ∧
      (walk symbols depth count held ls).2 = (held.reverse ++ inner).flatten :: bodies ∧
      Woven (count + 1) (walk symbols depth count held ls).1 bodies later) := by
  induction ls generalizing depth count held with
  | nil =>
    refine ⟨fun none_held => ?_,fun some_held => ⟨[],[],[],rfl,?_,?_⟩⟩
    · subst none_held
      exact .nil count
    · simp [walk,some_held]
    · exact .nil (count + 1)
  | cons line rest ih =>
    constructor
    · intro none_held
      subst none_held
      unfold walk
      simp only [List.isEmpty_nil,Bool.not_true,Bool.false_eq_true,if_false]
      split
      · obtain ⟨inner,later,bodies,rfl,same,woven⟩ :=
          (ih (depth + Chunk.delta symbols line) count [line]).2 (by simp)
        rw [same]
        exact .body woven
      · exact .own ((ih (depth + Chunk.delta symbols line) count []).1 rfl)
    · intro some_held
      unfold walk
      simp only [List.isEmpty_eq_false_iff.2 some_held,Bool.not_false,if_true]
      split
      · exact ⟨[line],rest,_,rfl,by simp,
          (ih (depth + Chunk.delta symbols line) (count + 1) []).1 rfl⟩
      · obtain ⟨inner,later,bodies,rfl,same,woven⟩ :=
          (ih (depth + Chunk.delta symbols line) count (line :: held)).2 (by simp)
        exact ⟨line :: inner,later,bodies,rfl,by simpa using same,woven⟩

theorem walk_woven (symbols : Symbols) (depth : Int) (count : Nat) (ls : List Text) :
    Woven count (walk symbols depth count [] ls).1 (walk symbols depth count [] ls).2 ls :=
  (walk_woven_from symbols depth count [] ls).1 rfl

theorem Woven.shown_eq_nil {n : Nat} {shown : List Line} {bodies : List Text}
    (woven : Woven n shown bodies []) : shown = [] ∧ bodies = [] := by
  cases woven
  exact ⟨rfl,rfl⟩

def markerEnd : Text := "@@"

theorem marker_append (i : Nat) (s : Text) :
    marker i ++ s = markerWord ++ (Numeral.ofNat i ++ (markerEnd ++ s)) := by
  change (markerWord ++ Numeral.ofNat i ++ markerEnd) ++ s = _
  simp only [List.append_assoc]

/-- What holds of the words of a marker and of every digit holds of the characters of a marker. -/
theorem forall_mem_marker {p : Char → Prop} (word : ∀ c ∈ markerWord, p c)
    (digit : ∀ d < 10, p (Numeral.digit d)) (i : Nat) : ∀ c ∈ marker i, p c := by
  intro c member
  have inside : c ∈ markerWord ++ (Numeral.ofNat i ++ (markerEnd ++ [])) := by
    rwa [← marker_append,List.append_nil]
  have ending : markerEnd ⊆ markerWord := by decide
  rcases List.mem_append.1 inside with front | inside
  · exact word c front
  · rcases List.mem_append.1 inside with middle | last
    · exact Numeral.forall_mem_ofNat digit i c middle
    · exact word c (ending (by simpa using last))

theorem after?_marker (i : Nat) (s : Text) :
    after? markerWord (marker i ++ s) = some (Numeral.ofNat i ++ (markerEnd ++ s)) :=
  after?_eq_some_iff.2 (marker_append i s)

private theorem markerIndex?_cons (c : Char) (r : Text) :
    markerIndex? (c :: r) = match after? markerWord (c :: r) with
      | some behind =>
        if !(behind.takeWhile isDigit).isEmpty && startsWith markerEnd (behind.dropWhile isDigit)
        then some (digitsValue (behind.takeWhile isDigit)) else markerIndex? r
      | none => markerIndex? r := rfl

/-- Blanks and tabs before a marker do not hide it. -/
theorem markerIndex?_marker {gap : Text} (blanks : ∀ c ∈ gap, c = ' ' ∨ c = '\t') (i : Nat)
    (s : Text) : markerIndex? (gap ++ (marker i ++ s)) = some i := by
  induction gap with
  | nil =>
    obtain ⟨c,r,same⟩ : ∃ c r, marker i ++ s = c :: r := ⟨_,_,marker_append i s⟩
    have digits := Numeral.isDigit_ofNat i
    have plain : isDigit '@' = false := by decide
    have ending : (markerEnd ++ s).takeWhile isDigit = [] := by simp [markerEnd,plain]
    have behind : (markerEnd ++ s).dropWhile isDigit = markerEnd ++ s := by simp [markerEnd,plain]
    have closed : startsWith markerEnd (markerEnd ++ s) = true := by simp [startsWith]
    have some_ : (Numeral.ofNat i).isEmpty = false := by simp [Numeral.ofNat_ne_nil]
    have found := after?_marker i s
    rw [List.nil_append]
    rw [same] at found ⊢
    rw [markerIndex?_cons,found]
    simp only [List.takeWhile_append_of_pos digits,List.dropWhile_append_of_pos digits,ending,
      List.append_nil,behind,closed,some_,Bool.not_false,Bool.and_true,if_true,Numeral.digitsValue_ofNat]
  | cons c gap ih =>
    have strange : ¬ markerWord <+: c :: (gap ++ (marker i ++ s)) := by
      intro found
      obtain ⟨r,word⟩ : ∃ r, markerWord = '@' :: r := ⟨_,rfl⟩
      rw [word] at found
      have first : '@' = c := (List.cons_prefix_cons.1 found).1
      rcases blanks c (by simp) with rfl | rfl <;> cases first
    rw [List.cons_append,markerIndex?_cons,after?_eq_none strange]
    exact ih fun d member => blanks d (by simp [member])

/-- A text that begins with a marker, whatever digits its number is written with. -/
def Begins (s : Text) : Prop :=
  ∃ digits, digits ≠ [] ∧ (∀ c ∈ digits, isDigit c = true) ∧ markerWord ++ (digits ++ markerEnd) <+: s

/-- A marker stands somewhere in the text. -/
def Marked (s : Text) : Prop :=
  ∃ digits, digits ≠ [] ∧ (∀ c ∈ digits, isDigit c = true) ∧ markerWord ++ (digits ++ markerEnd) <:+: s

theorem marked_cons {c : Char} {r : Text} : Marked (c :: r) ↔ Begins (c :: r) ∨ Marked r := by
  unfold Marked Begins
  simp only [List.infix_cons_iff,and_or_left,exists_or]

theorem begins_iff {s : Text} : Begins s ↔ ∃ behind, after? markerWord s = some behind ∧
    (!(behind.takeWhile isDigit).isEmpty && startsWith markerEnd (behind.dropWhile isDigit)) = true := by
  have plain : isDigit '@' = false := by decide
  constructor
  · rintro ⟨digits,some_,all,rest,rfl⟩
    have stop : (markerEnd ++ rest).takeWhile isDigit = [] := by simp [markerEnd,plain]
    have behind : (markerEnd ++ rest).dropWhile isDigit = markerEnd ++ rest := by simp [markerEnd,plain]
    refine ⟨digits ++ (markerEnd ++ rest),after?_eq_some_iff.2 (by simp),?_⟩
    rw [List.takeWhile_append_of_pos all,List.dropWhile_append_of_pos all,stop,behind]
    simp [some_,startsWith]
  · rintro ⟨behind,found,closed⟩
    simp only [Bool.and_eq_true,Bool.not_eq_true',List.isEmpty_eq_false_iff] at closed
    obtain ⟨rest,same⟩ := List.isPrefixOf_iff_prefix.1 closed.2
    refine ⟨_,closed.1,List.all_eq_true.1 List.all_takeWhile,rest,?_⟩
    rw [after?_eq_some_iff.1 found,List.append_assoc,List.append_assoc,same,List.takeWhile_append_dropWhile]

theorem markerIndex?_eq_none_iff {s : Text} : markerIndex? s = none ↔ ¬ Marked s := by
  induction s with
  | nil =>
    have none_ : ¬ Marked [] := by
      rintro ⟨digits,_,_,inside⟩
      have word := (List.append_eq_nil_iff.1 (List.infix_nil.1 inside)).1
      exact absurd word (by decide)
    exact ⟨fun _ => none_,fun _ => rfl⟩
  | cons c r ih =>
    rw [marked_cons,begins_iff,markerIndex?_cons]
    cases after? markerWord (c :: r) with
    | none => simp [ih]
    | some behind =>
      simp only [Option.some.injEq,exists_eq_left']
      split
      · rename_i closed
        simp [closed]
      · rename_i other
        simp [other,ih]

instance (s : Text) : Decidable (Marked s) :=
  decidable_of_iff (markerIndex? s ≠ none) (by rw [ne_eq,markerIndex?_eq_none_iff,Classical.not_not])

theorem Marked.of_within {s t : Text} (marked : Marked s) (inside : s <:+: t) : Marked t := by
  obtain ⟨digits,some_,all,found⟩ := marked
  exact ⟨digits,some_,all,found.trans inside⟩

theorem not_marked_of_lacks {s : Text} (lacking : Lacks markerWord s) : ¬ Marked s := by
  rintro ⟨digits,_,_,found⟩
  exact lacking ((List.prefix_append ..).isInfix.trans found)

theorem lacks_marker {s : Text} (unmarked : ¬ Marked s) (i : Nat) : Lacks (marker i) s := by
  intro found
  apply unmarked
  refine ⟨Numeral.ofNat i,Numeral.ofNat_ne_nil i,Numeral.isDigit_ofNat i,?_⟩
  have same := marker_append i []
  rw [List.append_nil,List.append_nil] at same
  rwa [← same]

theorem notMem_marker {c : Char} (word : c ∉ markerWord) (digit : ∀ d < 10, Numeral.digit d ≠ c)
    (i : Nat) : c ∉ marker i := fun member =>
  forall_mem_marker (p := (· ≠ c)) (fun _ inside same => word (same ▸ inside)) digit i c member rfl

theorem marker_cons (i : Nat) : ∃ r, marker i = '@' :: r :=
  ⟨_,(List.append_nil _).symm.trans (marker_append i [])⟩

/-- A line of an outline when each marker has the ending of its body. -/
def Line.closed (bodies : List Text) : Line → Text
  | .own line => line
  | .body i gap => gap ++ (marker i ++ feedEnding ((bodies[i]?).getD []))

theorem mem_indent {line : Text} {c : Char} (member : c ∈ indent line) : c = ' ' ∨ c = '\t' := by
  simpa using List.all_eq_true.1 List.all_takeWhile c member

theorem feedLine_marker (line : Text) (i : Nat) : FeedLine (Line.body i (indent line)).text := by
  refine ⟨indent line ++ marker i,fun c member => ?_,.inl rfl⟩
  rcases List.mem_append.1 member with gap | word
  · rcases mem_indent gap with rfl | rfl <;> rfl
  · have plain : Unbroken markerWord := by decide
    exact forall_mem_marker plain (by decide) i c word

/-- Only the last line of an outline may lack its line feed. -/
theorem Woven.feedLines {n : Nat} {shown : List Line} {bodies ls : List Text}
    (woven : Woven n shown bodies ls) (feeds : FeedLines ls) : FeedLines (shown.map Line.text) := by
  induction woven with
  | nil => exact feeds
  | @own _ line shown _ ls woven ih =>
    cases ls with
    | nil =>
      rw [woven.shown_eq_nil.1]
      exact feeds
    | cons next ls => exact .cons (feeds.head (by simp)) (ih feeds.tail)
  | body _ ih => exact .cons (feedLine_marker _ _) (ih feeds.of_append)

private theorem dropEnding_marker (gap : Text) (i : Nat) :
    dropEnding (gap ++ marker i ++ ['\n']) = gap ++ marker i := by
  obtain ⟨front,same⟩ : ∃ front, marker i = front ++ ['@'] :=
    ⟨markerWord ++ Numeral.ofNat i ++ ['@'],by
      rw [← List.append_nil (marker i),marker_append,markerEnd]
      simp⟩
  rw [same]
  simp [dropEnding,dropEndWhile,isReturnOrFeed]

theorem getElem?_of_drop {xs rest : List Text} {x : Text} {n : Nat} (behind : xs.drop n = x :: rest) :
    xs[n]? = some x ∧ xs.drop (n + 1) = rest := by
  rw [← List.head?_drop,← List.tail_drop,behind]
  exact ⟨rfl,rfl⟩

/-- Own lines stay and markers get the endings of their bodies. -/
theorem Woven.fixEnding {n : Nat} {shown : List Line} {bodies ls all : List Text}
    (woven : Woven n shown bodies ls) (behind : all.drop n = bodies)
    (unmarked : ∀ line ∈ ls, ¬ Marked line) :
    ∀ line ∈ shown, Outline.fixEnding all line.text = line.closed all := by
  induction woven with
  | nil => simp
  | own _ ih =>
    intro line member
    rcases List.mem_cons.1 member with rfl | later
    · unfold Outline.fixEnding
      rw [Line.text,markerIndex?_eq_none_iff.2 (unmarked _ (by simp))]
      rfl
    · exact ih behind (fun other inside => unmarked other (by simp [inside])) line later
  | @body n first inner shown bodies ls _ ih =>
    obtain ⟨here,rest⟩ := getElem?_of_drop behind
    intro line member
    rcases List.mem_cons.1 member with rfl | later
    · have blanks (c : Char) (inside : c ∈ indent first) := mem_indent inside
      have found := markerIndex?_marker blanks n ['\n']
      unfold Outline.fixEnding
      rw [Line.text,List.append_assoc,found]
      simp only [here]
      rw [← List.append_assoc,dropEnding_marker,Line.closed,here]
      simp only [Option.getD_some,List.append_assoc]
    · exact ih rest (fun other inside => unmarked other (by simp [inside])) line later

theorem ofText_walk (symbols : Symbols) {ls : List Text} (feeds : FeedLines ls)
    (unmarked : ∀ line ∈ ls, ¬ Marked line) :
    ofText symbols ls.flatten = ⟨((walk symbols 0 0 [] ls).1.map
      (Line.closed (walk symbols 0 0 [] ls).2)).flatten,(walk symbols 0 0 [] ls).2⟩ := by
  have woven := walk_woven symbols 0 0 ls
  simp only [ofText,lines_flatten feeds,lines_flatten (woven.feedLines feeds),List.map_map]
  congr 2
  exact List.map_congr_left (woven.fixEnding List.drop_zero unmarked)

/-- The lines of an outline as they are sent, for a text that is given by its lines. -/
theorem ofText_flatten (symbols : Symbols) {ls : List Text} (feeds : FeedLines ls)
    (unmarked : ∀ line ∈ ls, ¬ Marked line) :
    ∃ shown, Woven 0 shown (ofText symbols ls.flatten).bodies ls ∧
      (ofText symbols ls.flatten).text =
        (shown.map (Line.closed (ofText symbols ls.flatten).bodies)).flatten := by
  rw [ofText_walk symbols feeds unmarked]
  exact ⟨_,walk_woven symbols 0 0 ls,rfl⟩

theorem Woven.within {n : Nat} {shown : List Line} {bodies ls : List Text}
    (woven : Woven n shown bodies ls) : ∀ body ∈ bodies, body <:+: ls.flatten := by
  induction woven with
  | nil => simp
  | own _ ih =>
    intro body member
    exact (ih body member).trans (List.suffix_append ..).isInfix
  | body _ ih =>
    intro body member
    rw [List.flatten_append]
    rcases List.mem_cons.1 member with rfl | later
    · exact (List.prefix_append ..).isInfix
    · exact (ih body later).trans (List.suffix_append ..).isInfix

/-- The characters that may stand around a marker. -/
def isGap (c : Char) : Bool := c = ' ' || c = '\t'

theorem markerHere?_eq (i : Nat) (s : Text) :
    markerHere? i s = match after? (marker i) (s.dropWhile isGap) with
      | none => none
      | some behind => match behind.dropWhile isGap with
        | '\r' :: '\n' :: rest => some ("\r\n",rest)
        | '\n' :: rest => some ("\n",rest)
        | rest => some ("",rest) := rfl

/-- A text without a marker, closed by a line feed, does not begin with one. -/
private theorem markerHere?_eq_none {front : Text} {i : Nat} (more : Text)
    (lacking : Lacks (marker i) front) : markerHere? i (front ++ '\n' :: more) = none := by
  have behind : (front ++ '\n' :: more).dropWhile isGap = front.dropWhile isGap ++ '\n' :: more := by
    have plain : isGap '\n' = false := by decide
    rw [List.dropWhile_append]
    split
    · rename_i empty
      rw [List.isEmpty_iff.1 empty,List.dropWhile_cons,plain]
      rfl
    · rfl
  have fresh : '\n' ∉ marker i := notMem_marker (by decide) (by decide) i
  have apart : ¬ marker i <+: front.dropWhile isGap ++ '\n' :: more := fun found =>
    lacking ((prefix_of_fresh fresh found).isInfix.trans (List.dropWhile_suffix isGap).isInfix)
  rw [markerHere?_eq,behind,after?_eq_none apart]

/-- The search goes past a text without its marker to the line behind it. -/
theorem findMarker?_past {front : Text} {i : Nat} (lacking : Lacks (marker i) front) (lineStart : Bool)
    (more : Text) : findMarker? i lineStart (front ++ '\n' :: more) =
      (findMarker? i true more).map fun found => (front ++ '\n' :: found.1,found.2) := by
  induction front generalizing lineStart with
  | nil =>
    have here := markerHere?_eq_none more lacking
    rw [List.nil_append] at here ⊢
    cases lineStart <;> simp [findMarker?,here]
  | cons c front ih =>
    have here := markerHere?_eq_none more lacking
    have later := ih (lacking.of_within (List.suffix_cons c front).isInfix) (c = '\n')
    rw [List.cons_append] at here ⊢
    cases lineStart <;> simp [findMarker?,here,later,Function.comp_def]

/-- Whole lines that hold no marker of an outline. -/
def Passed (done : Text) : Prop :=
  done = [] ∨ ∃ front, done = front ++ ['\n'] ∧ ∀ i, Lacks (marker i) front

theorem Passed.findMarker? {done : Text} (passed : Passed done) (i : Nat) (more : Text) :
    Outline.findMarker? i true (done ++ more) =
      (Outline.findMarker? i true more).map fun found => (done ++ found.1,found.2) := by
  obtain rfl | ⟨front,rfl,lacking⟩ := passed
  · simp
  · simpa using findMarker?_past (lacking i) true more

theorem Passed.append {done line : Text} (passed : Passed done) (closed : endsWith "\n" line = true)
    (lacking : ∀ i, Lacks (marker i) line) : Passed (done ++ line) := by
  obtain ⟨body,rfl⟩ := List.isSuffixOf_iff_suffix.1 closed
  have bare (i : Nat) : Lacks (marker i) body := (lacking i).of_within (List.prefix_append ..).isInfix
  right
  obtain rfl | ⟨front,rfl,before⟩ := passed
  · exact ⟨body,rfl,bare⟩
  · refine ⟨front ++ '\n' :: body,by simp,fun i => ?_⟩
    have fresh : '\n' ∉ marker i := notMem_marker (by decide) (by decide) i
    have left := before i
    have right := bare i
    obtain ⟨r,same⟩ := marker_cons i
    rw [same] at fresh left right ⊢
    exact left.append_around fresh right

theorem feedEnding_cases (body : Text) :
    (feedEnding body = "\r\n" ∧ endsWith "\n" body = true) ∨
      (feedEnding body = "\n" ∧ endsWith "\n" body = true) ∨
      (feedEnding body = [] ∧ endsWith "\n" body = false) := by
  unfold feedEnding
  by_cases both : endsWith "\r\n" body = true
  · have shorter : ("\n" : Text) <:+ ("\r\n" : Text) := by decide
    have long : ("\r\n" : Text) <:+ body := List.isSuffixOf_iff_suffix.1 both
    exact .inl ⟨if_pos both,List.isSuffixOf_iff_suffix.2 (shorter.trans long)⟩
  · rw [if_neg both]
    by_cases feed : endsWith "\n" body = true
    · exact .inr (.inl ⟨if_pos feed,feed⟩)
    · exact .inr (.inr ⟨if_neg feed,by simpa using feed⟩)

/-- A marker is found at the start of its line, with what its line ends with. -/
private theorem markerHere?_marker {gap : Text} (blanks : ∀ c ∈ gap, c = ' ' ∨ c = '\t') (i : Nat)
    {body rest : Text} (closed : endsWith "\n" body = true ∨ rest = []) :
    markerHere? i (gap ++ (marker i ++ (feedEnding body ++ rest))) = some (feedEnding body,rest) := by
  have inGap : ∀ c ∈ gap, isGap c = true := fun c member => by
    rcases blanks c member with rfl | rfl <;> rfl
  have stop : (marker i ++ (feedEnding body ++ rest)).dropWhile isGap =
      marker i ++ (feedEnding body ++ rest) := by
    obtain ⟨r,same⟩ := marker_cons i
    rw [same]
    rfl
  have found : after? (marker i) (marker i ++ (feedEnding body ++ rest)) =
      some (feedEnding body ++ rest) := after?_eq_some_iff.2 rfl
  rw [markerHere?_eq,List.dropWhile_append_of_pos inGap,stop,found]
  rcases feedEnding_cases body with ⟨same,_⟩ | ⟨same,_⟩ | ⟨same,open_⟩
  · rw [same]
    rfl
  · rw [same]
    rfl
  · rcases closed with feed | rfl
    · rw [feed] at open_
      cases open_
    · rw [same]
      rfl

private theorem findMarker?_here {i : Nat} {s ending rest : Text} (some_ : s ≠ [])
    (here : markerHere? i s = some (ending,rest)) :
    findMarker? i true s = some ([],ending,rest) := by
  cases s with
  | nil => exact absurd rfl some_
  | cons c r => rw [findMarker?,if_pos rfl,here]

theorem lacks_flatten {ls : List Text} {i : Nat} (feeds : FeedLines ls)
    (lacking : ∀ line ∈ ls, Lacks (marker i) line) : Lacks (marker i) ls.flatten := by
  have fresh : '\n' ∉ marker i := notMem_marker (by decide) (by decide) i
  obtain ⟨r,same⟩ := marker_cons i
  rw [same] at fresh lacking ⊢
  induction ls with
  | nil => simp [Lacks]
  | cons line ls ih =>
    have here := lacking line (by simp)
    have later := ih feeds.tail fun other member => lacking other (by simp [member])
    cases ls with
    | nil => simpa using here
    | cons next ls => exact (feeds.head (by simp)).lacks_append fresh here later

/-- A text that is put in the place of a body has a line feed at its end if the body has. -/
def closedLike (body t : Text) : Text := if endsWith "\n" t then t else t ++ feedEnding body

theorem closedLike_self (body : Text) : closedLike body body = body := by
  unfold closedLike
  rcases feedEnding_cases body with ⟨_,feed⟩ | ⟨_,feed⟩ | ⟨same,_⟩
  · rw [if_pos feed]
  · rw [if_pos feed]
  · rw [same,List.append_nil,ite_self]

theorem withEnding_feedEnding (body t : Text) : withEnding t (feedEnding body) = closedLike body t := by
  unfold withEnding closedLike
  cases feed : endsWith "\n" t with
  | true => simp
  | false =>
    cases held : feedEnding body with
    | nil => simp
    | cons c r => simp

theorem endsWith_closedLike {body : Text} (closed : endsWith "\n" body = true) (t : Text) :
    endsWith "\n" (closedLike body t) = true := by
  unfold closedLike
  split
  · assumption
  · rcases feedEnding_cases body with ⟨same,_⟩ | ⟨same,_⟩ | ⟨_,open_⟩
    · rw [same]
      exact List.isSuffixOf_iff_suffix.2 ⟨t ++ ['\r'],by simp⟩
    · rw [same]
      exact List.isSuffixOf_iff_suffix.2 ⟨t,rfl⟩
    · rw [closed] at open_
      cases open_

theorem lacks_closedLike {t : Text} {i : Nat} (lacking : Lacks (marker i) t) (body : Text) :
    Lacks (marker i) (closedLike body t) := by
  have fresh (c : Char) (word : c ∉ markerWord) (digit : ∀ d < 10, Numeral.digit d ≠ c) (ending : Text)
      (free : '@' ∉ c :: ending) : Lacks (marker i) (t ++ c :: ending) := by
    obtain ⟨r,same⟩ := marker_cons i
    refine lacking.append_of_fresh (notMem_marker word digit i) ?_
    rw [same]
    exact lacks_of_notMem (by simp) free
  unfold closedLike
  split
  · exact lacking
  · rcases feedEnding_cases body with ⟨same,_⟩ | ⟨same,_⟩ | ⟨same,_⟩
    · rw [same]
      exact fresh '\r' (by decide) (by decide) _ (by decide)
    · rw [same]
      exact fresh '\n' (by decide) (by decide) _ (by decide)
    · rwa [same,List.append_nil]

/-- A line of an outline when texts stand in the places of the bodies. -/
def Line.filled (bodies texts : List Text) : Line → Text
  | .own line => line
  | .body i _ => closedLike ((bodies[i]?).getD []) ((texts[i]?).getD [])

/-- Texts go where the markers of the bodies stand; `done` is what stands before the first of them
already. -/
theorem Woven.place {n : Nat} {shown : List Line} {bodies ls all texts : List Text}
    (woven : Woven n shown bodies ls) (feeds : FeedLines ls) (unmarked : ∀ line ∈ ls, ¬ Marked line)
    (lacking : ∀ t ∈ texts, ∀ i, Lacks (marker i) t) (behind : all.drop n = bodies) :
    ∀ rest, texts.drop n = rest → rest.length = bodies.length → ∀ done, Passed done →
      Outline.place n (done ++ (shown.map (Line.closed all)).flatten) rest =
        (done ++ (shown.map (Line.filled all texts)).flatten,[]) := by
  induction woven with
  | nil n =>
    intro rest _ none_ done _
    rw [List.length_eq_zero_iff.1 none_]
    rfl
  | @own n line shown bodies ls woven ih =>
    intro rest left size done passed
    cases ls with
    | nil =>
      obtain ⟨rfl,rfl⟩ := woven.shown_eq_nil
      rw [List.length_eq_zero_iff.1 size]
      rfl
    | cons next ls =>
      have closed : endsWith "\n" line = true := (feeds.head (by simp)).endsWith []
      have later := ih feeds.tail (fun other member => unmarked other (by simp [member])) behind rest
        left size (done ++ line) (passed.append closed fun i => lacks_marker (unmarked line (by simp)) i)
      simpa [Line.closed,Line.filled] using later
  | @body n first inner shown bodies ls woven ih =>
    intro rest left size done passed
    obtain ⟨here,further⟩ := getElem?_of_drop behind
    cases rest with
    | nil => cases size
    | cons t rest =>
      obtain ⟨given,more⟩ := getElem?_of_drop left
      have ended (later : ls ≠ []) : endsWith "\n" (first :: inner).flatten = true :=
        feeds.endsWith_flatten (by simp) later
      generalize (first :: inner).flatten = body at here ended ⊢
      -- Only the last body of an outline may lack a line feed, and then nothing is behind it.
      have last : endsWith "\n" body = true ∨ (shown.map (Line.closed all)).flatten = [] := by
        cases ls with
        | nil => exact .inr (by simp [woven.shown_eq_nil])
        | cons next ls => exact .inl (ended (by simp))
      have found : findMarker? n true (indent first ++ (marker n ++
          (feedEnding body ++ (shown.map (Line.closed all)).flatten))) =
          some ([],feedEnding body,(shown.map (Line.closed all)).flatten) := by
        have blanks (c : Char) (inside : c ∈ indent first) := mem_indent inside
        have some_ : marker n ≠ [] := by
          obtain ⟨r,same⟩ := marker_cons n
          simp [same]
        exact findMarker?_here (by simp [some_]) (markerHere?_marker blanks n last)
      rw [List.map_cons,List.flatten_cons,List.map_cons,List.flatten_cons,Line.closed,Line.filled,here,
        given,Option.getD_some,Option.getD_some,List.append_assoc,List.append_assoc,Outline.place,
        passed.findMarker?,found]
      simp only [Option.map_some,List.append_nil,withEnding_feedEnding]
      rw [← List.append_assoc done]
      cases ls with
      | nil =>
        obtain ⟨rfl,rfl⟩ := woven.shown_eq_nil
        rw [List.length_eq_zero_iff.1 (Nat.succ.inj size)]
        simp [Outline.place]
      | cons next ls =>
        have clean (i : Nat) := lacks_closedLike (lacking t (List.mem_of_getElem? given) i) body
        exact ih feeds.of_append (fun other member => unmarked other (by simp [member])) further rest more
          (Nat.succ.inj size) _ (passed.append (endsWith_closedLike (ended (by simp)) t) clean)

theorem reassemble_walk (symbols : Symbols) (closing : Text) {ls texts : List Text}
    (feeds : FeedLines ls) (unmarked : ∀ line ∈ ls, ¬ Marked line)
    (lacking : ∀ t ∈ texts, ∀ i, Lacks (marker i) t)
    (size : texts.length = (walk symbols 0 0 [] ls).2.length) :
    reassemble closing (ofText symbols ls.flatten).text texts =
      ((walk symbols 0 0 [] ls).1.map (Line.filled (walk symbols 0 0 [] ls).2 texts)).flatten := by
  have placed := (walk_woven symbols 0 0 ls).place feeds unmarked lacking List.drop_zero texts
    List.drop_zero size [] (.inl rfl)
  simp only [List.nil_append] at placed
  rw [ofText_walk symbols feeds unmarked]
  unfold reassemble
  rw [placed]
  rfl

theorem Woven.filled_self {n : Nat} {shown : List Line} {bodies ls all : List Text}
    (woven : Woven n shown bodies ls) (behind : all.drop n = bodies) :
    (shown.map (Line.filled all all)).flatten = ls.flatten := by
  induction woven with
  | nil => rfl
  | own _ ih => simp [Line.filled,ih behind]
  | body _ ih =>
    obtain ⟨here,rest⟩ := getElem?_of_drop behind
    rw [List.map_cons,List.flatten_cons,ih rest,Line.filled,here,Option.getD_some,closedLike_self,
      List.flatten_append]

/-- The bodies of an outline, put back where its markers stand, give the text again. -/
theorem reassemble_ofText (symbols : Symbols) (closing : Text) {ls : List Text}
    (feeds : FeedLines ls) (unmarked : ∀ line ∈ ls, ¬ Marked line) :
    reassemble closing (ofText symbols ls.flatten).text (ofText symbols ls.flatten).bodies =
      ls.flatten := by
  have woven := walk_woven symbols 0 0 ls
  have lacking (body : Text) (member : body ∈ (walk symbols 0 0 [] ls).2) (i : Nat) :
      Lacks (marker i) body :=
    (lacks_flatten feeds fun line inside => lacks_marker (unmarked line inside) i).of_within
      (woven.within body member)
  have whole := reassemble_walk symbols closing feeds unmarked lacking rfl
  rw [woven.filled_self List.drop_zero] at whole
  rw [ofText_walk symbols feeds unmarked] at whole ⊢
  exact whole

/-- A character that no marker line has, whatever its number. -/
structure Foreign (c : Char) : Prop where
  gap : isGap c = false
  feed : isReturnOrFeed c = false
  word : c ∉ markerWord
  digit : ∀ d < 10, Numeral.digit d ≠ c

theorem Foreign.notMem_closed {c : Char} (foreign : Foreign c) (line : Text) (i : Nat)
    (bodies : List Text) : c ∉ (Line.body i (indent line)).closed bodies := by
  intro member
  unfold Line.closed at member
  rcases List.mem_append.1 member with gap | member
  · have blank := foreign.gap
    rcases mem_indent gap with rfl | rfl <;> cases blank
  · rcases List.mem_append.1 member with word | ending
    · exact forall_mem_marker (p := (· ≠ c)) (fun d inside same => foreign.word (same ▸ inside))
        foreign.digit i c word rfl
    · have feeds : ∀ d ∈ feedEnding ((bodies[i]?).getD []), isReturnOrFeed d = true := by
        rcases feedEnding_cases ((bodies[i]?).getD []) with ⟨same,_⟩ | ⟨same,_⟩ | ⟨same,_⟩ <;>
          rw [same] <;> exact List.all_eq_true.1 rfl
      have plain := foreign.feed
      rw [feeds c ending] at plain
      cases plain

/-- The markers bring no word into an outline that begins with a character of none of them. -/
theorem Woven.lacks {n : Nat} {shown : List Line} {bodies ls : List Text} {c : Char} {r : Text}
    (woven : Woven n shown bodies ls) (all : List Text) (foreign : Foreign c) (fresh : '\n' ∉ c :: r)
    (feeds : FeedLines ls) (lacking : ∀ line ∈ ls, Lacks (c :: r) line) :
    Lacks (c :: r) (shown.map (Line.closed all)).flatten := by
  induction woven with
  | nil => simp [Lacks]
  | @own _ line shown _ ls woven ih =>
    have here := lacking line (by simp)
    have later := ih feeds.tail fun other member => lacking other (by simp [member])
    cases ls with
    | nil => simpa [woven.shown_eq_nil,Line.closed] using here
    | cons next ls => exact (feeds.head (by simp)).lacks_append fresh here later
  | body _ ih =>
    have later := ih feeds.of_append fun other member => lacking other (by simp [member])
    rw [List.map_cons,List.flatten_cons]
    exact later.append_of_head (foreign.notMem_closed _ _ _)

end Recast.Outline
