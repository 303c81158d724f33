import Recast.Proofs.Source.Members
import Recast.Proofs.Source.Seated
import Recast.Proofs.Text.Respelling

/-! Outlines of texts with any line breaks. An outline is cut at every break, but a marker is looked for behind
line feeds only, and what is around it on its line goes with it. So the bodies come back to where they were
exactly if each of them begins behind a line feed, and no blank follows one that does not end with a line feed. -/
namespace Recast.Outline
open Text

/-- The text that some parts make up. -/
def whole (stretches : List Stretch) : Text := (stretches.flatMap Stretch.lines).flatten

/-- The parts of an outline from a number on; `all` are its bodies. -/
def sketch (all : List Text) (n : Nat) (stretches : List Stretch) : Text :=
  ((shown n stretches).map (Line.closed all)).flatten

/-- Behind the text `done`, each body begins a line behind a line feed, and it ends with a line feed or goes on
with a character that is no space and no tab. -/
def Separated (done : Text) (stretches : List Stretch) : Prop :=
  ∀ front first inner back, stretches = front ++ .member first inner :: back →
    LineStart (done ++ whole front) ∧
      (endsWith "\n" (first :: inner).flatten = true ∨ ∀ c ∈ (whole back).head?, isGap c = false)

section Parts
variable {all : List Text} {n : Nat} {line first done : Text} {inner : List Text} {rest : List Stretch}

theorem whole_own : whole (.own line :: rest) = line ++ whole rest := rfl

theorem whole_member : whole (.member first inner :: rest) = (first :: inner).flatten ++ whole rest := by
  unfold whole
  rw [List.flatMap_cons,List.flatten_append]
  rfl

theorem sketch_own : sketch all n (.own line :: rest) = line ++ sketch all n rest := rfl

theorem sketch_member {body : Text} (here : all[n]? = some body) :
    sketch all n (.member first inner :: rest) =
      indent first ++ (marker n ++ (feedEnding body ++ sketch all (n + 1) rest)) := by
  unfold sketch
  rw [shown,List.map_cons,List.flatten_cons,Line.closed,here,Option.getD_some]
  simp only [List.append_assoc]

theorem separated_own : Separated done (.own line :: rest) ↔ Separated (done ++ line) rest := by
  constructor
  · intro separated front first inner back same
    have found := separated (.own line :: front) first inner back (by rw [same]; rfl)
    rwa [whole_own,← List.append_assoc] at found
  · intro separated front first inner back same
    cases front with
    | nil => cases same
    | cons stretch front =>
      obtain ⟨rfl,later⟩ := List.cons.inj same
      rw [whole_own,← List.append_assoc]
      exact separated front first inner back later

theorem separated_member : Separated done (.member first inner :: rest) ↔
    (LineStart done ∧
      (endsWith "\n" (first :: inner).flatten = true ∨ ∀ c ∈ (whole rest).head?, isGap c = false)) ∧
      Separated (done ++ (first :: inner).flatten) rest := by
  constructor
  · intro separated
    constructor
    · simpa [whole] using separated [] first inner rest rfl
    · intro front other more back same
      have found := separated (.member first inner :: front) other more back (by rw [same]; rfl)
      rwa [whole_member,← List.append_assoc] at found
  · rintro ⟨here,separated⟩ front other more back same
    cases front with
    | nil =>
      cases same
      simpa [whole] using here
    | cons stretch front =>
      obtain ⟨rfl,later⟩ := List.cons.inj same
      rw [whole_member,← List.append_assoc]
      exact separated front other more back later

theorem isGap_of_mem_indent : ∀ c ∈ indent line, isGap c = true := by
  intro c member
  rcases mem_indent member with rfl | rfl <;> rfl

theorem feed_notMem_indent (line : Text) : '\n' ∉ indent line := by
  intro member
  rcases mem_indent member with same | same <;> cases same

end Parts

section Splitting

theorem gap_ne_feed {line : Text} {i : Nat} : (Line.body i (indent line)).text.head? ≠ some '\n' := by
  intro feed
  obtain ⟨r,word⟩ := marker_cons i
  change (indent line ++ marker i ++ ['\n']).head? = some '\n' at feed
  rw [word] at feed
  cases held : indent line with
  | nil =>
    rw [held] at feed
    cases feed
  | cons c gap =>
    rw [held] at feed
    cases feed
    exact feed_notMem_indent line (by simp [held])

/-- The lines of an outline remain lines when they are put together. -/
theorem Woven.lined {n : Nat} {shown : List Line} {bodies ls : List Text} (woven : Woven n shown bodies ls)
    (lined : Lined ls) : Lined (shown.map Line.text) := by
  induction woven with
  | nil => exact .nil
  | @own n line shown bodies ls woven ih =>
    have later := ih lined.tail
    cases lined with
    | last unbroken filled =>
      rw [woven.shown_eq_nil.1]
      exact .last unbroken filled
    | both unbroken _ => exact .both unbroken later
    | one unbroken breaks apart _ =>
      refine .one unbroken breaks (fun same other member => ?_) later
      cases woven with
      | nil => cases member
      | own _ => exact apart same other member
      | body _ =>
        cases member
        exact gap_ne_feed
  | @body n first inner shown bodies ls woven ih =>
    obtain ⟨body,unbroken,same | same⟩ := feedLine_marker first n
    · rw [List.map_cons,same]
      exact .one unbroken rfl (fun same => by cases same) (ih lined.of_append.2)
    · rw [List.map_cons,same]
      exact .both unbroken (ih lined.of_append.2)

/-- The outline of a text without markers, whatever its line breaks are. -/
theorem ofText_eq (symbols : Symbols) {text : Text} (unmarked : ¬ Marked text) :
    ∃ stretches, Cut symbols 0 stretches ∧ stretches.flatMap Stretch.lines = lines text ∧
      ofText symbols text = ⟨sketch (members stretches) 0 stretches,members stretches⟩ := by
  have free : ∀ line ∈ lines text, ¬ Marked line := by
    intro line member marked
    apply unmarked
    apply marked.of_within
    rw [← flatten_lines text]
    exact List.infix_of_mem_flatten member
  obtain ⟨stretches,cut,same,walked⟩ := walk_cut symbols (lines text)
  have woven := walk_woven symbols 0 0 (lines text)
  rw [walked] at woven
  refine ⟨stretches,cut,same,?_⟩
  unfold ofText sketch
  rw [walked]
  dsimp only
  rw [(woven.lined (lined_lines text)).lines_flatten,List.map_map]
  congr 2
  exact List.map_congr_left (woven.fixEnding List.drop_zero free)

end Splitting

section Search

/-- No search for a marker finds one before the end of the text, whatever follows. -/
def Firm (front : Text) : Prop :=
  ∀ i more before found, findMarker? i true (front ++ more) = some (before,found) → front <+: before

theorem Firm.place {front : Text} (firm : Firm front) (n : Nat) (bodies : List Text) {x : Text}
    (begins : front <+: x) : front <+: (Outline.place n x bodies).1 := by
  induction bodies generalizing n x with
  | nil => exact begins
  | cons body bodies ih =>
    rw [Outline.place]
    cases found : findMarker? n true x with
    | none => exact ih (n + 1) begins
    | some site =>
      obtain ⟨before,ending,behind⟩ := site
      obtain ⟨more,rfl⟩ := begins
      have kept := firm n more before _ found
      apply ih
      rw [List.append_assoc]
      exact kept.trans (List.prefix_append _ _)

theorem unbroken_marker {gap : Text} (blanks : ∀ c ∈ gap, isGap c = true) (i : Nat) :
    Unbroken (gap ++ marker i) := by
  have plain : Unbroken markerWord := by decide
  intro c member
  rcases List.mem_append.1 member with blank | inside
  · have kind := blanks c blank
    unfold isGap at kind
    simp only [Bool.or_eq_true,decide_eq_true_eq] at kind
    rcases kind with rfl | rfl <;> rfl
  · exact forall_mem_marker plain (by decide) i c inside

/-- Behind a break that is no line feed nothing is found as long as no line feed follows it. -/
theorem firm_of_break {front tail : Text} {b : Char} (breaks : isBreak b = true) (feed : b ≠ '\n')
    (unmarked : ¬ Marked (front ++ [b])) (plain : '\n' ∉ tail.dropLast) : Firm (front ++ [b] ++ tail) := by
  intro i more before found same
  obtain ⟨ending,behind⟩ := found
  obtain ⟨gap,wide,shape,blanks,_,_,start⟩ := findMarker?_eq_some same
  rw [List.append_assoc (front ++ [b])] at shape
  simp only [List.append_assoc before,List.append_assoc (gap ++ marker i)] at shape
  rcases List.append_eq_append_iff.1 shape with ⟨w,rfl,rest⟩ | ⟨v,long,rest⟩
  · -- The marker begins behind the break, so it stands behind a line feed of what follows.
    rcases start with ⟨none_,_⟩ | ⟨f,ends⟩
    · simp at none_
    rcases List.eq_nil_or_concat w with rfl | ⟨w,c,rfl⟩
    · rw [List.append_nil] at ends
      exact absurd (List.append_inj' ends rfl).2 (by simpa using feed)
    rw [List.concat_eq_append] at *
    rw [← List.append_assoc] at ends
    have last : c = '\n' := by simpa using (List.append_inj' ends rfl).2
    subst last
    refine (List.prefix_append_right_inj _).2 ?_
    rcases List.append_eq_append_iff.1 rest with ⟨z,short,_⟩ | ⟨z,long,_⟩
    · rw [short]
      exact List.prefix_append tail z
    · cases z with
      | nil => exact ⟨[],by simpa using long⟩
      | cons d z =>
        exfalso
        apply plain
        rw [long,List.append_assoc,List.dropLast_append_of_ne_nil (by simp)]
        exact List.mem_append_right _ (by simp)
  · -- The marker begins before the break and would go past it.
    rcases List.eq_nil_or_concat v with rfl | ⟨v,c,rfl⟩
    · rw [List.append_nil] at long
      rcases start with ⟨rfl,_⟩ | ⟨f,rfl⟩
      · simp at long
      · exact absurd (List.append_inj' long rfl).2 (by simpa using feed)
    exfalso
    rw [List.concat_eq_append,← List.append_assoc] at long
    rw [List.concat_eq_append] at rest
    obtain ⟨rfl,last⟩ := List.append_inj' long rfl
    obtain rfl : b = c := by simpa using last
    rcases List.append_eq_append_iff.1 rest with ⟨z,inner,_⟩ | ⟨z,outer,_⟩
    · exact lacks_marker unmarked i ⟨before ++ gap,z,by rw [List.append_assoc before v,inner]; simp⟩
    · exact (unbroken_marker blanks i).notMem breaks (by rw [outer]; simp)

/-- The end of a line that a text begins with, and the text behind it. -/
def cutFeed : Text → Text × Text
  | '\r' :: '\n' :: rest => ("\r\n",rest)
  | '\n' :: rest => ("\n",rest)
  | rest => ([],rest)

theorem cutFeed_append (s : Text) : (cutFeed s).1 ++ (cutFeed s).2 = s := by
  unfold cutFeed
  split
  · rfl
  · rfl
  · rfl

/-- A marker takes the blanks behind it along, and the end of its line. -/
theorem markerHere?_gap {gap : Text} (blanks : ∀ c ∈ gap, isGap c = true) (i : Nat) (rest : Text) :
    markerHere? i (gap ++ (marker i ++ rest)) = some (cutFeed (rest.dropWhile isGap)) := by
  have stop : (marker i ++ rest).dropWhile isGap = marker i ++ rest := by
    obtain ⟨r,same⟩ := marker_cons i
    rw [same]
    rfl
  have found : after? (marker i) (marker i ++ rest) = some rest := after?_eq_some_iff.2 rfl
  rw [markerHere?_eq,List.dropWhile_append_of_pos blanks,stop,found]
  dsimp only
  generalize rest.dropWhile isGap = s
  split
  · rfl
  · rfl
  · rename_i both one
    unfold cutFeed
    split
    · exact absurd rfl (both _)
    · exact absurd rfl (one _)
    · rfl

theorem withEnding_open {body : Text} (open_ : endsWith "\n" body = false) (ending : Text) :
    withEnding body ending = body ++ ending := by
  unfold withEnding
  rw [open_,Bool.or_false]
  split
  · rename_i none_
    rw [List.isEmpty_iff.1 none_,List.append_nil]
  · rfl

/-- The end of a line that a body has goes with its marker; other bodies leave only the blanks there. -/
theorem withEnding_cutFeed (body rest : Text) :
    withEnding body (cutFeed ((feedEnding body ++ rest).dropWhile isGap)).1 ++
        (cutFeed ((feedEnding body ++ rest).dropWhile isGap)).2 =
      body ++ (if endsWith "\n" body then rest else rest.dropWhile isGap) := by
  rcases feedEnding_cases body with ⟨same,closed⟩ | ⟨same,closed⟩ | ⟨same,open_⟩
  · rw [same,if_pos closed,withEnding,closed,Bool.or_true,if_pos rfl]
    rfl
  · rw [same,if_pos closed,withEnding,closed,Bool.or_true,if_pos rfl]
    rfl
  · rw [same,List.nil_append,withEnding_open open_,List.append_assoc,cutFeed_append,open_]
    rfl

/-- A body whose marker begins a line takes the place of the marker; where it does not end with a line feed the
blanks behind the marker are lost. -/
theorem place_member {done body rest : Text} (start : LineStart done) (unmarked : ¬ Marked done) {gap : Text}
    (blanks : ∀ c ∈ gap, isGap c = true) (n : Nat) (bodies : List Text) :
    Outline.place n (done ++ (gap ++ (marker n ++ (feedEnding body ++ rest)))) (body :: bodies) =
      Outline.place (n + 1) (done ++ body ++ (if endsWith "\n" body then rest else rest.dropWhile isGap))
        bodies := by
  have passed : Passed done := by
    rcases List.eq_nil_or_concat done with rfl | ⟨front,c,rfl⟩
    · exact .inl rfl
    · rw [List.concat_eq_append] at *
      have feed : c = '\n' := start c List.getLast?_concat
      subst feed
      exact .inr ⟨front,rfl,fun i =>
        (lacks_marker unmarked i).of_within (List.prefix_append front ['\n']).isInfix⟩
  have here := markerHere?_gap blanks n (feedEnding body ++ rest)
  have found : findMarker? n true (gap ++ (marker n ++ (feedEnding body ++ rest))) =
      some ([],cutFeed ((feedEnding body ++ rest).dropWhile isGap)) := by
    obtain ⟨c,r,same⟩ : ∃ c r, gap ++ (marker n ++ (feedEnding body ++ rest)) = c :: r := by
      obtain ⟨r,word⟩ := marker_cons n
      cases gap with
      | nil => exact ⟨'@',_,by rw [word]; rfl⟩
      | cons c gap => exact ⟨c,_,rfl⟩
    rw [same] at here ⊢
    rw [findMarker?,if_pos rfl,here]
  rw [Outline.place,passed.findMarker?,found]
  simp only [Option.map_some,List.append_nil]
  rw [List.append_assoc,withEnding_cutFeed,← List.append_assoc]

end Search

section Counting

/-- How many of the characters that markers are marked with a text has. -/
def signs (s : Text) : Nat := s.count '@'

theorem signs_append (s t : Text) : signs (s ++ t) = signs s + signs t := List.count_append

theorem signs_eq_zero {s : Text} (plain : '@' ∉ s) : signs s = 0 := List.count_eq_zero.2 plain

theorem signs_marker (i : Nat) : signs (marker i) = 4 := by
  have digits : signs (Numeral.ofNat i) = 0 :=
    signs_eq_zero fun member => Numeral.forall_mem_ofNat (p := (· ≠ '@')) (by decide) i _ member rfl
  rw [← List.append_nil (marker i),marker_append,signs_append,signs_append,digits]
  rfl

theorem signs_gap {gap : Text} (blanks : ∀ c ∈ gap, isGap c = true) : signs gap = 0 :=
  signs_eq_zero fun member => absurd (blanks _ member) (by decide)

theorem signs_feed {ending : Text} (feed : ending = "\r\n" ∨ ending = "\n" ∨ ending = []) :
    signs ending = 0 := by
  rcases feed with rfl | rfl | rfl <;> rfl

theorem signs_withEnding (body : Text) {ending : Text}
    (feed : ending = "\r\n" ∨ ending = "\n" ∨ ending = []) : signs (withEnding body ending) = signs body := by
  unfold withEnding
  split
  · rfl
  · rw [signs_append,signs_feed feed,Nat.add_zero]

/-- Every body that is put in place does away with one marker. -/
theorem signs_place (n : Nat) (x : Text) (bodies : List Text) :
    signs (place n x bodies).1 + signs (place n x bodies).2.flatten + 4 * bodies.length =
      signs x + signs bodies.flatten + 4 * (place n x bodies).2.length := by
  induction bodies generalizing n x with
  | nil => rfl
  | cons body bodies ih =>
    rw [place,List.flatten_cons,List.length_cons,signs_append]
    cases found : findMarker? n true x with
    | none =>
      have later := ih (n + 1) x
      simp only [List.flatten_cons,List.length_cons,signs_append]
      omega
    | some site =>
      obtain ⟨before,ending,behind⟩ := site
      obtain ⟨gap,wide,rfl,left,right,feed,_⟩ := findMarker?_eq_some found
      have later := ih (n + 1) (before ++ withEnding body ending ++ behind)
      simp only [signs_append,signs_withEnding body feed,signs_marker,signs_gap left,signs_gap right,
        signs_feed feed] at later ⊢
      omega

theorem signs_parting (closing result block : Text) : signs (parting closing result block) = 0 := by
  unfold parting
  split
  · split <;> rfl
  · split <;> rfl

theorem signs_feedClosed (body : Text) : signs (feedClosed body) = signs body := by
  unfold feedClosed
  split
  · rfl
  · rw [signs_append]
    rfl

theorem signs_block (missing : List Text) : signs (missing.map feedClosed).flatten = signs missing.flatten := by
  induction missing with
  | nil => rfl
  | cons body missing ih =>
    rw [List.map_cons,List.flatten_cons,List.flatten_cons,signs_append,signs_append,ih,signs_feedClosed]

theorem signs_insertMissing (closing result : Text) (missing : List Text) :
    signs (insertMissing closing result missing) = signs result + signs missing.flatten := by
  have around := signs_append (result.take (cutAt closing result)) (result.drop (cutAt closing result))
  rw [List.take_append_drop] at around
  rw [insertMissing_eq,signs_append,signs_append,signs_append,signs_parting,signs_block]
  omega

/-- An outline has one marker for each of its bodies. -/
theorem signs_sketch {all : List Text} (n : Nat) (stretches : List Stretch)
    (behind : all.drop n = members stretches) : signs (sketch all n stretches) + signs (members stretches).flatten =
      signs (whole stretches) + 4 * (members stretches).length := by
  induction stretches generalizing n with
  | nil => rfl
  | cons stretch rest ih =>
    cases stretch with
    | own line =>
      have later := ih n behind
      rw [sketch_own,whole_own,signs_append,signs_append]
      change _ + _ + signs (members rest).flatten = _ + _ + 4 * (members rest).length
      omega
    | member first inner =>
      obtain ⟨here,further⟩ := getElem?_of_drop behind
      have later := ih (n + 1) further
      have feed : signs (feedEnding (first :: inner).flatten) = 0 := by
        rcases feedEnding_cases (first :: inner).flatten with ⟨same,_⟩ | ⟨same,_⟩ | ⟨same,_⟩ <;>
          rw [same] <;> rfl
      rw [sketch_member here,whole_member]
      change _ + signs ((first :: inner).flatten :: members rest).flatten =
        _ + 4 * ((first :: inner).flatten :: members rest).length
      simp only [List.length_cons,List.flatten_cons (l := (first :: inner).flatten),signs_append,
        signs_gap isGap_of_mem_indent,signs_marker,feed]
      omega

/-- The text comes back only if no body is without a marker. -/
theorem reassemble_eq_iff (closing : Text) (stretches : List Stretch) :
    reassemble closing (sketch (members stretches) 0 stretches) (members stretches) = whole stretches ↔
      place 0 (sketch (members stretches) 0 stretches) (members stretches) = (whole stretches,[]) := by
  have placed := signs_place 0 (sketch (members stretches) 0 stretches) (members stretches)
  have all : (members stretches).drop 0 = members stretches := List.drop_zero
  have shown := signs_sketch 0 stretches all
  unfold reassemble
  generalize place 0 (sketch (members stretches) 0 stretches) (members stretches) = done at *
  obtain ⟨result,missing⟩ := done
  dsimp only at placed ⊢
  cases missing with
  | nil => simp
  | cons body missing =>
    refine ⟨fun same => ?_,fun same => by cases same⟩
    rw [if_neg (by simp)] at same
    have count := congrArg signs same
    rw [signs_insertMissing] at count
    rw [List.length_cons] at placed
    omega

end Counting

section Placing
variable {before ls : List Text} {all : List Text} {n : Nat} {rest : List Stretch}

/-- Where no line starts behind some lines and others follow, they end with a break that is no line feed. -/
theorem exists_other_break (lined : Lined (before ++ ls)) (more : ls ≠ [])
    (inside : ¬ LineStart before.flatten) :
    ∃ front b, before.flatten = front ++ [b] ∧ isBreak b = true ∧ b ≠ '\n' := by
  rcases List.eq_nil_or_concat before with rfl | ⟨first,line,rfl⟩
  · exact absurd (fun c last => by cases last) inside
  · rw [List.concat_eq_append] at lined inside ⊢
    rw [List.append_assoc] at lined
    obtain ⟨body,b,rfl,breaks⟩ := lined.of_append.2.ends more
    have shape : (first ++ [body ++ [b]]).flatten = first.flatten ++ body ++ [b] := by simp
    rw [shape] at inside ⊢
    refine ⟨first.flatten ++ body,b,rfl,breaks,?_⟩
    rintro rfl
    exact inside (lineStart_feed _)

theorem endsWith_of_lineStart {done body : Text} (filled : body ≠ []) (start : LineStart (done ++ body)) :
    endsWith "\n" body = true := by
  rcases List.eq_nil_or_concat body with none_ | ⟨inner,c,rfl⟩
  · exact absurd none_ filled
  · rw [List.concat_eq_append,← List.append_assoc] at start
    have feed : c = '\n' := start c List.getLast?_concat
    rw [List.concat_eq_append,feed]
    exact List.isSuffixOf_iff_suffix.2 ⟨inner,rfl⟩

theorem dropWhile_sketch (filled : ∀ line ∈ rest.flatMap Stretch.lines, line ≠ [])
    (dark : ∀ c ∈ (whole rest).head?, isGap c = false) :
    (sketch all n rest).dropWhile isGap = sketch all n rest := by
  cases rest with
  | nil => rfl
  | cons stretch rest =>
    cases stretch with
    | own line =>
      obtain ⟨c,line,rfl⟩ := List.exists_cons_of_ne_nil (filled line (by simp [Stretch.lines]))
      have plain := dark c rfl
      rw [sketch_own,List.cons_append,List.dropWhile_cons,plain]
      rfl
    | member first inner =>
      obtain ⟨c,first,rfl⟩ := List.exists_cons_of_ne_nil (filled first (by simp [Stretch.lines]))
      have plain := dark c rfl
      have none_ : indent (c :: first) = [] := List.takeWhile_cons_of_neg (by simpa [isGap] using plain)
      obtain ⟨r,word⟩ := marker_cons n
      have shape : ∃ s, sketch all n (.member (c :: first) inner :: rest) = '@' :: s := by
        unfold sketch
        rw [shown,List.map_cons,List.flatten_cons,Line.closed,none_,word]
        exact ⟨_,rfl⟩
      obtain ⟨s,same⟩ := shape
      rw [same]
      rfl

theorem place_of_unmarked {x : Text} (unmarked : ¬ Marked x) (n : Nat) (bodies : List Text) :
    place n x bodies = (x,bodies) := by
  induction bodies generalizing n with
  | nil => rfl
  | cons body bodies ih =>
    have none_ : findMarker? n true x = none := by
      cases found : findMarker? n true x with
      | none => rfl
      | some site =>
        obtain ⟨before,ending,behind⟩ := site
        obtain ⟨gap,wide,shape,_⟩ := findMarker?_eq_some found
        exact absurd ⟨before ++ gap,wide ++ ending ++ behind,by rw [shape]; simp⟩ (lacks_marker unmarked n)
    rw [place,none_]
    dsimp only
    rw [ih (n + 1)]

/-- Behind lines that do not end with a line feed, a blank that was lost does not come back. -/
theorem place_ne_of_blank (lined : Lined (before ++ ls)) (open_ : ¬ LineStart before.flatten)
    (unmarked : ¬ Marked (before.flatten ++ ls.flatten)) (blank_ : ¬ ∀ c ∈ ls.flatten.head?, isGap c = false)
    (n : Nat) (shown : Text) (bodies : List Text) :
    place n (before.flatten ++ shown.dropWhile isGap) bodies ≠ (before.flatten ++ ls.flatten,[]) := by
  have more : ls ≠ [] := by
    rintro rfl
    exact blank_ (by simp)
  obtain ⟨done,b,ends,breaks,feed⟩ := exists_other_break lined more open_
  rw [ends] at unmarked ⊢
  have bare : ¬ Marked (done ++ [b]) := fun marked =>
    unmarked (marked.of_within (List.prefix_append _ _).isInfix)
  have dark := List.head?_dropWhile_not isGap shown
  generalize shown.dropWhile isGap = left at dark ⊢
  intro same
  cases left with
  | nil =>
    rw [List.append_nil,place_of_unmarked bare] at same
    have nothing : ls.flatten = [] := by simpa using (Prod.mk.inj same).1
    exact blank_ (by simp [nothing])
  | cons d left =>
    have firm : Firm (done ++ [b] ++ [d]) := firm_of_break breaks feed bare (by simp)
    have begins := firm.place n bodies (x := done ++ [b] ++ d :: left) ⟨left,by simp⟩
    rw [same] at begins
    obtain ⟨tail,shape⟩ := (List.prefix_append_right_inj _).1 begins
    apply blank_
    rw [← shape]
    simpa using dark

/-- Behind lines that do not end with a line feed a marker stays. -/
theorem place_ne_of_break (lined : Lined (before ++ ls)) (more : ls ≠ [])
    (inside : ¬ LineStart before.flatten) (unmarked : ¬ Marked (before.flatten ++ ls.flatten)) {gap : Text}
    (plain : '\n' ∉ gap) (n : Nat) (rest : Text) (bodies : List Text) :
    place n (before.flatten ++ (gap ++ (marker n ++ rest))) bodies ≠ (before.flatten ++ ls.flatten,[]) := by
  obtain ⟨done,b,ends,breaks,feed⟩ := exists_other_break lined more inside
  rw [ends] at unmarked ⊢
  intro same
  have fresh : '\n' ∉ marker n := notMem_marker (by decide) (by decide) n
  have firm : Firm (done ++ [b] ++ (gap ++ marker n)) := by
    apply firm_of_break breaks feed
    · exact fun marked => unmarked (marked.of_within (List.prefix_append _ _).isInfix)
    · intro member
      rcases List.mem_append.1 ((List.dropLast_sublist _).subset member) with blank | word
      · exact plain blank
      · exact fresh word
  have kept := firm.place n bodies (x := done ++ [b] ++ (gap ++ (marker n ++ rest))) ⟨rest,by simp⟩
  rw [same] at kept
  refine lacks_marker unmarked n (List.IsInfix.trans ?_ kept.isInfix)
  exact ⟨done ++ [b] ++ gap,[],by simp⟩

/-- The bodies take the places of their markers again exactly if they are separated. -/
theorem place_sketch_iff (n : Nat) {stretches : List Stretch}
    (lined : Lined (before ++ stretches.flatMap Stretch.lines))
    (unmarked : ¬ Marked (before.flatten ++ whole stretches)) (behind : all.drop n = members stretches) :
    place n (before.flatten ++ sketch all n stretches) (members stretches) =
      (before.flatten ++ whole stretches,[]) ↔ Separated before.flatten stretches := by
  induction stretches generalizing n before with
  | nil =>
    refine ⟨fun _ front first inner back same => ?_,fun _ => rfl⟩
    cases front <;> cases same
  | cons stretch rest ih =>
    cases stretch with
    | own line =>
      have linedNext : Lined ((before ++ [line]) ++ rest.flatMap Stretch.lines) := by
        simpa [Stretch.lines] using lined
      have later := ih n linedNext (by simpa [whole_own] using unmarked) behind
      rw [List.flatten_append,List.flatten_singleton,List.append_assoc,List.append_assoc] at later
      rw [separated_own,← later]
      rfl
    | member first inner =>
      obtain ⟨here,further⟩ := getElem?_of_drop behind
      have linedNext : Lined ((before ++ (first :: inner)) ++ rest.flatMap Stretch.lines) := by
        simpa [Stretch.lines] using lined
      have later := ih (n + 1) linedNext (by simpa [whole_member] using unmarked) further
      rw [List.flatten_append] at later
      rw [whole_member] at unmarked
      have filled : ∀ line ∈ before ++ ((first :: inner) ++ rest.flatMap Stretch.lines), line ≠ [] := by
        intro line member
        have shape := lined.lines_flatten
        exact ne_nil_of_mem_lines (shape.symm ▸ member)
      rw [sketch_member here,whole_member,separated_member]
      change place n _ ((first :: inner).flatten :: members rest) = _ ↔ _
      by_cases start : LineStart before.flatten
      · have bare : ¬ Marked before.flatten := fun marked =>
          unmarked (marked.of_within (List.prefix_append _ _).isInfix)
        rw [place_member start bare isGap_of_mem_indent]
        by_cases kept : endsWith "\n" (first :: inner).flatten = true ∨
            ∀ c ∈ (whole rest).head?, isGap c = false
        · have same : (if endsWith "\n" (first :: inner).flatten then sketch all (n + 1) rest
              else (sketch all (n + 1) rest).dropWhile isGap) = sketch all (n + 1) rest := by
            split
            · rfl
            · rename_i open_
              refine dropWhile_sketch (fun line member => filled line ?_) (kept.resolve_left open_)
              simp [member]
          rw [same,← List.append_assoc,later]
          exact ⟨fun separated => ⟨⟨start,kept⟩,separated⟩,And.right⟩
        · refine iff_of_false (fun same => ?_) fun separated => kept separated.1.2
          obtain ⟨open_,blank_⟩ := not_or.1 kept
          have body : (first :: inner).flatten ≠ [] := by simp [filled first (by simp)]
          rw [if_neg open_,← List.append_assoc,← List.flatten_append] at same
          rw [← List.append_assoc,← List.flatten_append] at unmarked
          refine place_ne_of_blank linedNext (fun start => open_ ?_) unmarked blank_ _ _ _ same
          rw [List.flatten_append] at start
          exact endsWith_of_lineStart body start
      · refine iff_of_false (fun same => ?_) fun separated => start separated.1.1
        rw [← whole_member] at same unmarked
        have more : (Stretch.member first inner :: rest).flatMap Stretch.lines ≠ [] := by simp [Stretch.lines]
        exact place_ne_of_break lined more start unmarked (feed_notMem_indent first) _ _ _ same

end Placing

/-- Whatever ends the lines of a text, its outline gives it back exactly if each body begins the text or follows
a line feed, and ends with a line feed or is followed by neither a space nor a tab. -/
theorem rebuild_iff (symbols : Symbols) {text : Text} (unmarked : ¬ Marked text) :
    ∃ stretches, Cut symbols 0 stretches ∧ stretches.flatMap Stretch.lines = lines text ∧
      (ofText symbols text).bodies = members stretches ∧
      (rebuild symbols (ofText symbols text) = text ↔ Separated [] stretches) := by
  obtain ⟨stretches,cut,same,outline⟩ := ofText_eq symbols unmarked
  have spelled : whole stretches = text := by rw [whole,same,flatten_lines]
  refine ⟨stretches,cut,same,by rw [outline],?_⟩
  have lined : Lined ([] ++ stretches.flatMap Stretch.lines) := by
    rw [same]
    exact lined_lines text
  have bare : ¬ Marked (([] : List Text).flatten ++ whole stretches) := by
    rw [spelled]
    exact unmarked
  have all : (members stretches).drop 0 = members stretches := List.drop_zero
  have placed := place_sketch_iff 0 lined bare all
  rw [rebuild,outline,← spelled]
  exact (reassemble_eq_iff symbols.closing stretches).trans placed

/-- A body behind a line feed that holds a line tabulation and ends with a next line character. -/
theorem rebuild_iff_next_line :
    let text : Text := "class A \x7b\n  f() \x7b\x0b\x7d\u0085g\u2028\x7d\n"
    ∃ stretches, Cut .braces 0 stretches ∧ stretches.flatMap Stretch.lines = lines text ∧
      (ofText .braces text).bodies = ["  f() \x7b\x0b\x7d\u0085".toList] ∧ Separated [] stretches := by
  intro text
  have unmarked : ¬ Marked text := by decide +kernel
  obtain ⟨stretches,cut,same,_,iff⟩ := rebuild_iff .braces unmarked
  exact ⟨stretches,cut,same,by decide +kernel,iff.1 (by decide +kernel)⟩

/-- A member behind a form feed begins a line of the outline, but none at which its marker is looked for: the
marker stays and the body moves. -/
theorem rebuild_moved :
    let text : Text := "class A \x7b\n\x0cf() \x7b\n\x7d\n\x7d\n"
    ¬ Marked text ∧ rebuild .braces (ofText .braces text) =
      ("class A \x7b\n\x0c@@BODY_0@@\nf() \x7b\n\x7d\n\x7d\n" : Text) := by
  exact ⟨by decide +kernel,by decide +kernel⟩

end Recast.Outline
