import Recast.Proofs.Text.Runs
import Recast.Run.Bundle

/-! Several files in one text. What counts as a marker line is said without the search for it; a text
comes apart exactly where it is a blank beginning and then, for each file, its marker line and its
content, and a text that was put together is one of these unless a content brings a marker of its
own. -/
namespace Recast

namespace Text

/-- A text that ends where a line ends. -/
def EndsLine (s : Text) : Prop := s = [] ∨ ∃ r, s = r ++ ['\n']

theorem feedLines_eq_nil {s : Text} (none_ : feedLines s = []) : s = [] := by
  rw [← flatten_feedLines s,none_]
  rfl

theorem feedLines_concat (r t : Text) :
    feedLines (r ++ '\n' :: t) = feedLines (r ++ ['\n']) ++ feedLines t := by
  induction r with
  | nil => rfl
  | cons c r ih =>
    rw [List.cons_append,List.cons_append,feedLines,feedLines,ih]
    by_cases feed : c = '\n'
    · rw [if_pos feed,if_pos feed]
      rfl
    · rw [if_neg feed,if_neg feed]
      cases held : feedLines (r ++ ['\n']) with
      | nil => exact absurd (feedLines_eq_nil held) (by simp)
      | cons l ls => rfl

theorem feedLines_append {s : Text} (ended : EndsLine s) (t : Text) :
    feedLines (s ++ t) = feedLines s ++ feedLines t := by
  rcases ended with rfl | ⟨r,rfl⟩
  · rfl
  · rw [List.append_assoc]
    exact feedLines_concat r t

/-- Only the last character can be the line feed of a single line. -/
theorem feedLines_single {s e : Text} (plain : '\n' ∉ s) (feed : e = [] ∨ e = ['\n'])
    (some_ : s ++ e ≠ []) : feedLines (s ++ e) = [s ++ e] := by
  induction s with
  | nil =>
    rcases feed with rfl | rfl
    · exact absurd rfl some_
    · rfl
  | cons c s ih =>
    have other : c ≠ '\n' := fun same => plain (by simp [same])
    rw [List.cons_append,feedLines,if_neg other]
    by_cases empty : s ++ e = []
    · rw [empty]
      rfl
    · rw [ih (fun member => plain (by simp [member])) empty]

/-- The first line of a text, and the text behind it. -/
theorem feedLines_cons {s l : Text} {ls : List Text} (held : feedLines s = l :: ls) :
    feedLines l = [l] ∧ (ls = [] ∨ EndsLine l) ∧ ∃ t, s = l ++ t ∧ feedLines t = ls := by
  induction s generalizing l ls with
  | nil => cases held
  | cons c r ih =>
    rw [feedLines] at held
    split at held
    · rename_i feed
      obtain ⟨rfl,rfl⟩ := List.cons.inj held
      subst feed
      exact ⟨rfl,.inr (.inr ⟨[],rfl⟩),r,rfl,rfl⟩
    · rename_i other
      split at held
      · rename_i none_
        obtain ⟨rfl,rfl⟩ := List.cons.inj held
        rw [feedLines_eq_nil none_]
        exact ⟨by simp [feedLines,other],.inl rfl,[],rfl,rfl⟩
      · rename_i l' ls' more
        obtain ⟨rfl,rfl⟩ := List.cons.inj held
        obtain ⟨single,ended,t,rfl,later⟩ := ih more
        refine ⟨by rw [feedLines,if_neg other,single],ended.imp id fun closed => ?_,t,rfl,later⟩
        rcases closed with rfl | ⟨body,rfl⟩
        · cases single
        · exact .inr ⟨c :: body,rfl⟩

/-- The first lines of a text are the lines of what they make up. -/
theorem feedLines_flatten {s : Text} {front back : List Text} (held : feedLines s = front ++ back) :
    feedLines front.flatten = front := by
  induction front generalizing s with
  | nil => rfl
  | cons l front ih =>
    obtain ⟨single,ended,t,_,later⟩ := feedLines_cons held
    rw [List.flatten_cons]
    rcases ended with none_ | ended
    · obtain ⟨rfl,_⟩ := List.append_eq_nil_iff.1 none_
      rw [List.flatten_nil,List.append_nil,single]
    · rw [feedLines_append ended,single,ih later,List.singleton_append]

theorem EndsLine.append {s t : Text} (left : EndsLine s) (right : EndsLine t) : EndsLine (s ++ t) := by
  rcases right with rfl | ⟨r,rfl⟩
  · rw [List.append_nil]
    exact left
  · exact .inr ⟨s ++ r,(List.append_assoc ..).symm⟩

/-- A line of a text stands where a line begins, and ends as a line or with the text. -/
theorem mem_feedLines {s line : Text} (member : line ∈ feedLines s) :
    ∃ before after, s = before ++ (line ++ after) ∧ EndsLine before ∧ (after = [] ∨ EndsLine line) := by
  generalize held : feedLines s = ls at member
  induction ls generalizing s with
  | nil => cases member
  | cons l ls ih =>
    obtain ⟨_,ended,t,rfl,later⟩ := feedLines_cons held
    rcases List.mem_cons.1 member with rfl | member
    · refine ⟨[],t,rfl,.inl rfl,ended.imp (fun none_ => ?_) id⟩
      exact feedLines_eq_nil (later.trans none_)
    · obtain ⟨before,after,rfl,begun,rest⟩ := ih later member
      have closed : EndsLine l := ended.resolve_left (List.ne_nil_of_mem member)
      exact ⟨l ++ before,after,(List.append_assoc ..).symm,closed.append begun,rest⟩

end Text

namespace Bundle
open Text

/-- How a marker line ends: with the text, or with a line feed and perhaps a return before it. -/
def lineEnds : List Text := [[],['\n'],['\r','\n']]

/-- A line that marks the beginning of a file, with the name as it stands between the two marks. -/
inductive MarkerLine (name : Text) : Text → Prop where
  | mk {indent gap e : Text} : (∀ c ∈ indent, isGap c = true) → name ≠ [] → '\n' ∉ name →
    (∀ c ∈ gap, isGap c = true) → e ∈ lineEnds →
    MarkerLine name (indent ++ (opening ++ (name ++ (closing ++ (gap ++ e)))))

/-- Somewhere in the text a line begins that marks the beginning of a file. -/
def Marked (s : Text) : Prop :=
  ∃ before name line after, s = before ++ (line ++ after) ∧ EndsLine before ∧
    MarkerLine name line ∧ (after = [] ∨ EndsLine line)

section Lines

theorem closes_iff {s : Text} : closes s = true ↔
    ∃ gap e, s = closing ++ (gap ++ e) ∧ (∀ c ∈ gap, isGap c = true) ∧ e ∈ lineEnds := by
  unfold closes
  constructor
  · intro closed
    cases found : after? closing s with
    | none => simp [found] at closed
    | some behind =>
      rw [found] at closed
      refine ⟨behind.takeWhile isGap,behind.dropWhile isGap,?_,?_,?_⟩
      · rw [List.takeWhile_append_dropWhile]
        exact after?_eq_some_iff.1 found
      · exact List.all_eq_true.1 List.all_takeWhile
      · simpa [lineEnds,or_assoc] using closed
  · rintro ⟨gap,e,rfl,blanks,ends⟩
    have plain : e.head?.any isGap = false := by
      have all : ∀ e ∈ lineEnds, e.head?.any isGap = false := by decide
      exact all e ends
    rw [after?_eq_some_iff.2 rfl]
    simp only [dropWhile_append blanks plain]
    simpa [lineEnds,or_assoc] using ends

/-- Nothing longer than a closing mark is one: it would begin with a mark, and then another follows. -/
theorem closes_unique {v s : Text} (closed : closes s = true) (longer : closes (v ++ s) = true) :
    v = [] := by
  obtain ⟨gap,e,rfl,blanks,ends⟩ := closes_iff.1 closed
  obtain ⟨gap',e',same,blanks',ends'⟩ := closes_iff.1 longer
  have twice {gap e : Text} (blanks : ∀ c ∈ gap, isGap c = true) (ends : e ∈ lineEnds) :
      (closing ++ (gap ++ e)).count '@' = 2 := by
    have inGap : '@' ∉ gap := fun member => absurd (blanks _ member) (by decide)
    have inEnd : '@' ∉ e := by
      have all : ∀ e ∈ lineEnds, '@' ∉ e := by decide
      exact all e ends
    rw [List.count_append,List.count_append,List.count_eq_zero.2 inGap,List.count_eq_zero.2 inEnd]
    decide
  have counts := congrArg (List.count '@') same
  rw [List.count_append,twice blanks ends,twice blanks' ends'] at counts
  cases v with
  | nil => rfl
  | cons c v =>
    have first : c = '@' := (List.cons.inj same).1
    have absent : '@' ∉ c :: v := List.count_eq_zero.1 (by omega)
    exact absurd (by simp [first]) absent

theorem pathBefore?_append {name rest : Text} (some_ : name ≠ []) (unbroken : '\n' ∉ name)
    (closed : closes rest = true) : pathBefore? (name ++ rest) = some name := by
  induction name with
  | nil => exact absurd rfl some_
  | cons c name ih =>
    have other : c ≠ '\n' := fun same => unbroken (by simp [same])
    rw [List.cons_append,pathBefore?,if_neg other]
    cases name with
    | nil => rw [List.nil_append,if_pos closed]
    | cons d name =>
      have open_ : ¬ closes (d :: name ++ rest) = true :=
        fun longer => absurd (closes_unique closed longer) (by simp)
      rw [if_neg open_,ih (by simp) fun member => unbroken (List.mem_cons_of_mem c member)]
      rfl

theorem of_pathBefore? {s name : Text} (held : pathBefore? s = some name) :
    name ≠ [] ∧ '\n' ∉ name ∧ ∃ rest, s = name ++ rest ∧ closes rest = true := by
  induction s generalizing name with
  | nil => cases held
  | cons c r ih =>
    unfold pathBefore? at held
    split at held
    · cases held
    · rename_i other
      split at held
      · rename_i closed
        cases held
        exact ⟨by simp,by simpa using Ne.symm other,r,rfl,closed⟩
      · obtain ⟨inner,found,rfl⟩ := Option.map_eq_some_iff.1 held
        obtain ⟨_,unbroken,rest,rfl,closed⟩ := ih found
        refine ⟨by simp,fun member => ?_,rest,rfl,closed⟩
        rcases List.mem_cons.1 member with same | member
        · exact other same.symm
        · exact unbroken member

theorem markedPath?_eq_some_iff {line name : Text} :
    markedPath? line = some name ↔ MarkerLine name line := by
  unfold markedPath?
  rw [Option.bind_eq_some_iff]
  constructor
  · rintro ⟨behind,found,held⟩
    obtain ⟨some_,unbroken,rest,rfl,closed⟩ := of_pathBefore? held
    obtain ⟨gap,e,rfl,blanks,ends⟩ := closes_iff.1 closed
    rw [← List.takeWhile_append_dropWhile (p := isGap) (l := line),after?_eq_some_iff.1 found]
    exact .mk (List.all_eq_true.1 List.all_takeWhile) some_ unbroken blanks ends
  · intro marker
    cases marker with | @mk indent gap e indented some_ unbroken blanks ends => ?_
    have begun : ((opening ++ (name ++ (closing ++ (gap ++ e)))).head?.any isGap) = false := by
      simp [opening,isGap]
    rw [dropWhile_append indented begun]
    exact ⟨_,after?_eq_some_iff.2 rfl,
      pathBefore?_append some_ unbroken (closes_iff.2 ⟨gap,e,rfl,blanks,ends⟩)⟩

theorem MarkerLine.ne_nil {name line : Text} (marker : MarkerLine name line) : line ≠ [] := by
  cases marker
  simp [opening]

theorem MarkerLine.feedLines {name line : Text} (marker : MarkerLine name line) :
    feedLines line = [line] := by
  have some_ := marker.ne_nil
  cases marker with | @mk indent gap e indented _ unbroken blanks ends => ?_
  have gapless {s : Text} (all : ∀ c ∈ s, isGap c = true) : '\n' ∉ s :=
    fun member => absurd (all _ member) (by decide)
  have cut : ∃ r f, e = r ++ f ∧ '\n' ∉ r ∧ (f = [] ∨ f = ['\n']) := by
    simp only [lineEnds,List.mem_cons,List.not_mem_nil,or_false] at ends
    rcases ends with rfl | rfl | rfl
    · exact ⟨[],[],rfl,by simp,.inl rfl⟩
    · exact ⟨[],['\n'],rfl,by simp,.inr rfl⟩
    · exact ⟨['\r'],['\n'],rfl,by decide,.inr rfl⟩
  obtain ⟨r,f,rfl,returns,feed⟩ := cut
  have parts : indent ++ (opening ++ (name ++ (closing ++ (gap ++ (r ++ f))))) =
      (indent ++ (opening ++ (name ++ (closing ++ (gap ++ r))))) ++ f := by simp
  rw [parts] at some_ ⊢
  refine feedLines_single ?_ feed some_
  simp [gapless indented,gapless blanks,unbroken,returns,opening,closing]

theorem marked_iff {s : Text} : Marked s ↔ ∃ line ∈ feedLines s, (markedPath? line).isSome = true := by
  constructor
  · rintro ⟨before,name,line,after,rfl,begun,marker,ended⟩
    refine ⟨line,?_,Option.isSome_iff_exists.2 ⟨name,markedPath?_eq_some_iff.2 marker⟩⟩
    have here : line ∈ feedLines (line ++ after) := by
      rcases ended with rfl | ended
      · rw [List.append_nil,marker.feedLines]
        exact List.mem_singleton_self line
      · rw [feedLines_append ended,marker.feedLines]
        exact List.mem_cons_self ..
    rw [feedLines_append begun]
    exact List.mem_append_right _ here
  · rintro ⟨line,member,held⟩
    obtain ⟨name,found⟩ := Option.isSome_iff_exists.1 held
    obtain ⟨before,after,same,begun,ended⟩ := mem_feedLines member
    exact ⟨before,name,line,after,same,begun,markedPath?_eq_some_iff.1 found,ended⟩

instance (s : Text) : Decidable (Marked s) := decidable_of_iff _ marked_iff.symm

theorem markedPath?_eq_none {s line : Text} (unmarked : ¬ Marked s) (member : line ∈ feedLines s) :
    markedPath? line = none := by
  rw [← Option.not_isSome_iff_eq_none]
  exact fun held => unmarked (marked_iff.2 ⟨line,member,held⟩)

/-- A marker is not blank. -/
theorem not_marked_of_blank {s : Text} (white : blank s = true) : ¬ Marked s := by
  rintro ⟨before,name,line,after,rfl,_,marker,_⟩
  cases marker
  exact absurd (List.all_eq_true.1 white '@' (by simp [opening])) (by decide)

end Lines

/-- A file in a text: its marker line, the name on it, and all that stands before the next one. -/
structure Row where
  line : Text
  name : Text
  content : Text

namespace Row

def lines (r : Row) : List Text := r.line :: feedLines r.content

/-- What is read from a file in a text. -/
def file (r : Row) : Text × Text := (trim r.name,r.content)

/-- The line marks a file, and no line of the content does. -/
structure Sound (r : Row) : Prop where
  marker : MarkerLine r.name r.line
  unmarked : ¬ Marked r.content

end Row

section Sections

theorem sections_unmarked {front : List Text} (unmarked : ∀ line ∈ front, markedPath? line = none)
    (ls : List Text) : sections (front ++ ls) = (front.flatten ++ (sections ls).1,(sections ls).2) := by
  induction front with
  | nil => rfl
  | cons line front ih =>
    have here := unmarked line (by simp)
    have later := ih fun l member => unmarked l (by simp [member])
    rw [List.cons_append,sections,later,here,List.flatten_cons,List.append_assoc]

theorem sections_rows {front : List Text} (unmarked : ∀ line ∈ front, markedPath? line = none)
    {rows : List Row} (sound : ∀ r ∈ rows, r.Sound) :
    sections (front ++ rows.flatMap Row.lines) = (front.flatten,rows.map Row.file) := by
  induction rows generalizing front with
  | nil =>
    rw [List.flatMap_nil,sections_unmarked unmarked]
    simp [sections]
  | cons r rows ih =>
    have here := sound r (by simp)
    have held := markedPath?_eq_some_iff.2 here.marker
    have later := ih (fun _ member => markedPath?_eq_none here.unmarked member)
      fun q member => sound q (by simp [member])
    rw [flatten_feedLines] at later
    rw [List.flatMap_cons,sections_unmarked unmarked,Row.lines,List.cons_append,sections,later,held]
    simp [Row.file]

/-- Every text falls into its lines before the first marker, and the files behind. -/
theorem exists_rows (s : Text) : ∃ (front : List Text) (rows : List Row),
    feedLines s = front ++ rows.flatMap Row.lines ∧ (∀ line ∈ front, markedPath? line = none) ∧
      ∀ r ∈ rows, r.Sound := by
  generalize held : feedLines s = ls
  induction ls generalizing s with
  | nil => exact ⟨[],[],rfl,by simp,by simp⟩
  | cons line ls ih =>
    obtain ⟨_,_,t,rfl,later⟩ := feedLines_cons held
    obtain ⟨front,rows,rfl,unmarked,sound⟩ := ih t later
    cases found : markedPath? line with
    | none =>
      refine ⟨line :: front,rows,rfl,fun l member => ?_,sound⟩
      rcases List.mem_cons.1 member with rfl | member
      · exact found
      · exact unmarked l member
    | some name =>
      have whole : feedLines front.flatten = front := feedLines_flatten later
      have bare : ¬ Marked front.flatten := by
        rw [marked_iff,whole]
        rintro ⟨l,member,some_⟩
        rw [unmarked l member] at some_
        cases some_
      refine ⟨[],⟨line,name,front.flatten⟩ :: rows,?_,by simp,fun r member => ?_⟩
      · rw [List.flatMap_cons,Row.lines,whole]
        rfl
      · rcases List.mem_cons.1 member with rfl | member
        · exact ⟨markedPath?_eq_some_iff.1 found,bare⟩
        · exact sound r member

/-- What makes a text come apart into the files that are named. -/
structure Laid (code : Text) (paths : List Text) (front : Text) (rows : List Row) : Prop where
  lines : feedLines code = feedLines front ++ rows.flatMap Row.lines
  white : blank front = true
  sound : ∀ r ∈ rows, r.Sound
  some_ : rows ≠ []
  named : rows.map (fun r => trim r.name) = paths

theorem split?_eq_some_iff {code : Text} {paths : List Text} {parts : List (Text × Text)} :
    split? code paths = some parts ↔
      ∃ front rows, Laid code paths front rows ∧ parts = rows.map Row.file := by
  have names (rows : List Row) : (rows.map Row.file).map (·.1) = rows.map fun r => trim r.name := by
    rw [List.map_map]
    rfl
  unfold split?
  constructor
  · obtain ⟨front,rows,lines,unmarked,sound⟩ := exists_rows code
    rw [lines,sections_rows unmarked sound]
    simp only
    intro apart
    split at apart
    · rename_i fits
      simp only [Bool.and_eq_true,decide_eq_true_eq,names,Bool.not_eq_true',List.isEmpty_eq_false_iff,
        ne_eq,List.map_eq_nil_iff] at fits
      obtain ⟨⟨named,some_⟩,white⟩ := fits
      cases apart
      refine ⟨front.flatten,rows,⟨?_,white,sound,some_,named⟩,rfl⟩
      rw [feedLines_flatten lines,lines]
    · cases apart
  · rintro ⟨front,rows,laid,rfl⟩
    have bare := not_marked_of_blank laid.white
    rw [laid.lines,sections_rows (fun _ member => markedPath?_eq_none bare member) laid.sound]
    simp [flatten_feedLines,names,laid.named,laid.white,laid.some_]

theorem flatten_rows (rows : List Row) :
    (rows.flatMap Row.lines).flatten = rows.flatMap fun r => r.line ++ r.content := by
  induction rows with
  | nil => rfl
  | cons r rows ih => simp [Row.lines,flatten_feedLines,ih]

/-- Nothing stands beside the beginning, the marker lines and the contents. -/
theorem Laid.code_eq {code : Text} {paths : List Text} {front : Text} {rows : List Row}
    (laid : Laid code paths front rows) :
    code = front ++ rows.flatMap fun r => r.line ++ r.content := by
  rw [← flatten_feedLines code,laid.lines,List.flatten_append,flatten_feedLines,flatten_rows]

end Sections

section Joining

theorem endsLine_feedClosed (s : Text) : EndsLine (feedClosed s) := by
  unfold feedClosed
  split
  · rename_i closed
    rcases Bool.or_eq_true_iff.1 closed with empty | feed
    · exact .inl (List.isEmpty_iff.1 empty)
    · obtain ⟨r,same⟩ := List.isSuffixOf_iff_suffix.1 feed
      exact .inr ⟨r,same.symm⟩
  · exact .inr ⟨s,rfl⟩

/-- A file as it is put into a text. -/
def Row.of (f : Text × Text) : Row := ⟨marker f.1,f.1,feedClosed f.2⟩

theorem markerLine_marker {path : Text} (some_ : path ≠ []) (unbroken : '\n' ∉ path) :
    MarkerLine path (marker path) := by
  have whole : marker path = [] ++ (opening ++ (path ++ (closing ++ ([] ++ ['\n'])))) := by simp [marker]
  rw [whole]
  exact .mk (by simp) some_ unbroken (by simp) (by decide)

theorem feedLines_join {files : List (Text × Text)} (named : ∀ f ∈ files, f.1 ≠ [] ∧ '\n' ∉ f.1) :
    feedLines (join files) = (files.map Row.of).flatMap Row.lines := by
  induction files with
  | nil => rfl
  | cons f files ih =>
    have marks := markerLine_marker (named f (by simp)).1 (named f (by simp)).2
    have ended : EndsLine (marker f.1) := .inr ⟨opening ++ f.1 ++ closing,rfl⟩
    have parts : join (f :: files) = marker f.1 ++ (feedClosed f.2 ++ join files) := by simp [join]
    rw [parts,feedLines_append ended,marks.feedLines,feedLines_append (endsLine_feedClosed f.2),
      ih fun g member => named g (by simp [member])]
    rfl

/-- The files that are put into one text. -/
structure Mergeable (files : List (Text × Text)) : Prop where
  some_ : files ≠ []
  filled : ∀ f ∈ files, f.1 ≠ []
  unbroken : ∀ f ∈ files, '\n' ∉ f.1
  trimmed : ∀ f ∈ files, trim f.1 = f.1

/-- Files that are put together come apart again exactly if no content has a marker line once its last
line is ended; and a text that comes apart is a blank beginning and then the marker line and the content
of each file, which has no marker line, so that nothing is dropped, doubled or moved. -/
theorem split?_join_iff :
    (∀ files, Mergeable files →
      (split? (join files) (files.map Prod.fst) = some (files.map fun f => (f.1,feedClosed f.2)) ↔
        ∀ f ∈ files, ¬ Marked (feedClosed f.2))) ∧
    ∀ code paths parts, split? code paths = some parts → ∃ (front : Text) (rows : List Row),
      code = front ++ (rows.flatMap fun r => r.line ++ r.content) ∧ blank front = true ∧
      feedLines code = feedLines front ++ (rows.flatMap fun r => r.line :: feedLines r.content) ∧
      rows.map (fun r => trim r.name) = paths ∧
      (∀ r ∈ rows, MarkerLine r.name r.line ∧ ¬ Marked r.content) ∧
      parts = paths.zip (rows.map Row.content) := by
  constructor
  · intro files mergeable
    have file (f) (member : f ∈ files) : (Row.of f).file = (f.1,feedClosed f.2) := by
      rw [Row.file,Row.of,mergeable.trimmed f member]
    have whole : files.map (fun f => (f.1,feedClosed f.2)) = (files.map Row.of).map Row.file := by
      rw [List.map_map]
      exact (List.map_congr_left file).symm
    constructor
    · intro apart f member
      obtain ⟨front,rows,laid,same⟩ := split?_eq_some_iff.1 apart
      have inside : (f.1,feedClosed f.2) ∈ rows.map Row.file := by
        rw [← same]
        exact List.mem_map_of_mem member
      obtain ⟨r,held,read⟩ := List.mem_map.1 inside
      rw [← (Prod.mk.inj read).2]
      exact (laid.sound r held).unmarked
    · intro unmarked
      refine split?_eq_some_iff.2 ⟨[],files.map Row.of,⟨?_,rfl,?_,?_,?_⟩,whole⟩
      · exact feedLines_join fun f member => ⟨mergeable.filled f member,mergeable.unbroken f member⟩
      · intro r member
        obtain ⟨f,held,rfl⟩ := List.mem_map.1 member
        exact ⟨markerLine_marker (mergeable.filled f held) (mergeable.unbroken f held),unmarked f held⟩
      · exact fun none_ => mergeable.some_ (List.map_eq_nil_iff.1 none_)
      · rw [List.map_map]
        exact List.map_congr_left mergeable.trimmed
  · intro code paths parts apart
    obtain ⟨front,rows,laid,rfl⟩ := split?_eq_some_iff.1 apart
    refine ⟨front,rows,laid.code_eq,laid.white,laid.lines,laid.named,
      fun r member => ⟨(laid.sound r member).marker,(laid.sound r member).unmarked⟩,?_⟩
    rw [← laid.named,List.zip_map']
    rfl

/-- The first path has marks of its own, the first content looks like a marker and is not ended, and the
second is empty; in the other text the marker line is indented and ends with a return. -/
theorem split?_join_iff_nearly_marked :
    let files : List (Text × Text) := [("a b@@.py".toList,"x = 1\n@@FILE @@".toList),("c.py".toList,[])]
    let code : Text := "\n\t@@FILE c.py @@ \r\n @@FILE c.py"
    Mergeable files ∧ (∀ f ∈ files, ¬ Marked (feedClosed f.2)) ∧
      split? (join files) (files.map Prod.fst) =
        some [("a b@@.py".toList,"x = 1\n@@FILE @@\n".toList),("c.py".toList,[])] ∧
      split? code ["c.py".toList] = some [("c.py".toList," @@FILE c.py".toList)] ∧
      ∃ (front : Text) (rows : List Row), code = front ++ (rows.flatMap fun r => r.line ++ r.content) ∧
        rows.map Row.content = [" @@FILE c.py".toList] := by
  intro files code
  have mergeable : Mergeable files := ⟨by decide,by decide,by decide,by decide +kernel⟩
  have unmarked : ∀ f ∈ files, ¬ Marked (feedClosed f.2) := by decide +kernel
  have apart : split? code ["c.py".toList] = some [("c.py".toList," @@FILE c.py".toList)] := by
    decide +kernel
  refine ⟨mergeable,unmarked,(split?_join_iff.1 files mergeable).2 unmarked,apart,?_⟩
  obtain ⟨front,rows,whole,_,_,named,_,same⟩ := split?_join_iff.2 _ _ _ apart
  refine ⟨front,rows,whole,?_⟩
  have size : rows.length = 1 := by simpa using congrArg List.length named
  obtain ⟨r,rfl⟩ := List.length_eq_one_iff.1 size
  exact (congrArg (List.map Prod.snd) same).symm

/-- A return at the end of a content is no end of a line, but it is the beginning of one as soon as the
content is ended with a line feed, and then the content has a marker. -/
theorem split?_join_return :
    let files : List (Text × Text) := [("p".toList,"@@FILE x@@\r".toList)]
    Mergeable files ∧ (∀ f ∈ files, ¬ Marked f.2) ∧
      split? (join files) (files.map Prod.fst) ≠ some (files.map fun f => (f.1,feedClosed f.2)) ∧
      split? (join files) (files.map Prod.fst) = none := by
  intro files
  exact ⟨⟨by decide,by decide,by decide,by decide +kernel⟩,by decide +kernel,by decide +kernel,
    by decide +kernel⟩

end Joining

end Bundle

end Recast
