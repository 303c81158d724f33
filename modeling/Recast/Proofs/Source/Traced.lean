import Recast.Proofs.Source.Outline

/-! The filling of an outline, followed character by character. The run that puts the bodies in place
is carried out on characters that know where they come from, and it gives the same text. -/
namespace Recast.Outline
open Text

/-- Where a character comes from: from the outline, where so many characters follow it, from a body, or
from neither. -/
inductive Origin where
  | outline (left : Nat)
  | body (index : Nat)
  | added
  deriving DecidableEq

/-- A text whose characters know where they come from. -/
abbrev Traced := List (Char × Origin)

/-- What a search for a marker finds: the text before it, the marker with what is around it, how its
line ends, and the text behind it. -/
structure Site where
  before : Traced
  found : Traced
  ending : Text
  behind : Traced

namespace Traced

def text (x : Traced) : Text := x.map Prod.fst

def of (origin : Origin) (s : Text) : Traced := s.map fun c => (c,origin)

def ofOutline : Text → Traced
  | [] => []
  | c :: r => (c,.outline r.length) :: ofOutline r

@[simp] theorem text_append (x y : Traced) : (x ++ y).text = x.text ++ y.text := List.map_append

@[simp] theorem text_nil : text [] = [] := rfl

@[simp] theorem text_of (origin : Origin) (s : Text) : (of origin s).text = s := by
  unfold text of
  rw [List.map_map]
  exact List.map_id s

@[simp] theorem text_ofOutline (s : Text) : (ofOutline s).text = s := by
  induction s with
  | nil => rfl
  | cons c r ih => exact congrArg (c :: ·) ih

@[simp] theorem length_text (x : Traced) : x.text.length = x.length := List.length_map ..

theorem text_take (n : Nat) (x : Traced) : text (x.take n) = x.text.take n := List.map_take

theorem text_drop (n : Nat) (x : Traced) : text (x.drop n) = x.text.drop n := List.map_drop

theorem mem_of {origin : Origin} {s : Text} {e : Char × Origin} (member : e ∈ of origin s) :
    e.2 = origin := by
  obtain ⟨_,_,rfl⟩ := List.mem_map.1 member
  rfl

theorem mem_ofOutline {s : Text} {e : Char × Origin} (member : e ∈ ofOutline s) :
    ∃ left, e.2 = .outline left := by
  induction s with
  | nil => cases member
  | cons c r ih =>
    rcases List.mem_cons.1 member with rfl | later
    · exact ⟨_,rfl⟩
    · exact ih later

/-- The place where a marker begins its line, if there is one. -/
def site? (i : Nat) (x : Traced) : Option Site :=
  (findMarker? i true x.text).map fun (before,ending,behind) =>
    ⟨x.take before.length,(x.drop before.length).take (x.length - before.length - behind.length),ending,
      x.drop (x.length - behind.length)⟩

/-- A body in the place of its marker, with the ending of the marker's line if it has none. -/
def filled (i : Nat) (body ending : Text) : Traced :=
  of (.body i) body ++ of .added ((withEnding body ending).drop body.length)

/-- The text with a body at a place. -/
def put (s : Site) (i : Nat) (body : Text) : Traced := s.before ++ filled i body s.ending ++ s.behind

/-- Puts bodies in place of their markers; collects the bodies without a marker, and their numbers. -/
def place (index : Nat) (x : Traced) : List Text → Traced × List (Text × Nat)
  | [] => (x,[])
  | body :: rest =>
    match x.site? index with
    | some s => place (index + 1) (put s index body) rest
    | none =>
      let (y,missing) := place (index + 1) x rest
      (y,(body,index) :: missing)

end Traced

/-- The place where the missing bodies go: before the last closing symbol, or at the start of its line
where only blanks stand before it, and at the end if there is none. -/
def cutAt (closing result : Text) : Nat :=
  match cutLast? closing result with
  | none => result.length
  | some (before,_) =>
    if blank (takeEndWhile (· ≠ '\n') before) then (dropEndWhile (· ≠ '\n') before).length
    else before.length

/-- The line feed that comes before the missing bodies, if one is needed. -/
def parting (closing result block : Text) : Text :=
  match cutLast? closing result with
  | none => if result.isEmpty || endsWith "\n" result then [] else ['\n']
  | some (before,_) =>
    if blank (takeEndWhile (· ≠ '\n') before) || startsWith "\n" block then [] else ['\n']

namespace Traced

/-- The missing bodies, each closed by a line feed. -/
def block (missing : List (Text × Nat)) : Traced :=
  missing.flatMap fun m => of (.body m.2) m.1 ++ of .added ((feedClosed m.1).drop m.1.length)

/-- The bodies in place, and those without a marker at the cut. -/
def reassemble (closing skeleton : Text) (bodies : List Text) : Traced :=
  let (x,missing) := place 0 (ofOutline skeleton) bodies
  if missing.isEmpty then x
  else
    x.take (cutAt closing x.text) ++ of .added (parting closing x.text (block missing).text) ++
      block missing ++ x.drop (cutAt closing x.text)

end Traced

/-- What is found at the start of a line: the marker with blanks around it, and the end of the line. -/
theorem markerHere?_eq_some {i : Nat} {s ending behind : Text}
    (found : markerHere? i s = some (ending,behind)) :
    ∃ gap wide, s = gap ++ marker i ++ wide ++ ending ++ behind ∧
      (∀ c ∈ gap, isGap c = true) ∧ (∀ c ∈ wide, isGap c = true) ∧
      (ending = "\r\n" ∨ ending = "\n" ∨ ending = []) := by
  rw [markerHere?_eq] at found
  split at found
  · cases found
  · rename_i rest marked
    have front : s = s.takeWhile isGap ++ marker i ++ rest := by
      rw [List.append_assoc,← after?_eq_some_iff.1 marked,List.takeWhile_append_dropWhile]
    have blanks (t : Text) : ∀ c ∈ t.takeWhile isGap, isGap c = true := fun c member =>
      List.all_eq_true.1 List.all_takeWhile c member
    have middle : rest = rest.takeWhile isGap ++ rest.dropWhile isGap :=
      List.takeWhile_append_dropWhile.symm
    suffices ends : rest.dropWhile isGap = ending ++ behind ∧
        (ending = "\r\n" ∨ ending = "\n" ∨ ending = []) by
      refine ⟨s.takeWhile isGap,rest.takeWhile isGap,?_,blanks s,blanks rest,ends.2⟩
      rw [List.append_assoc _ ending,← ends.1,List.append_assoc _ (rest.takeWhile isGap),← middle]
      exact front
    split at found
    · rename_i same
      cases found
      exact ⟨same,.inl rfl⟩
    · rename_i same
      cases found
      exact ⟨same,.inr (.inl rfl)⟩
    · cases found
      exact ⟨rfl,.inr (.inr rfl)⟩

/-- What the search for a marker finds makes up the text, and begins a line. -/
theorem findMarker?_eq_some {i : Nat} {lineStart : Bool} {s before ending behind : Text}
    (found : findMarker? i lineStart s = some (before,ending,behind)) :
    ∃ gap wide, s = before ++ (gap ++ marker i ++ wide ++ ending) ++ behind ∧
      (∀ c ∈ gap, isGap c = true) ∧ (∀ c ∈ wide, isGap c = true) ∧
      (ending = "\r\n" ∨ ending = "\n" ∨ ending = []) ∧
      ((before = [] ∧ lineStart = true) ∨ ∃ front, before = front ++ ['\n']) := by
  induction s generalizing lineStart before with
  | nil => cases found
  | cons c r ih =>
    unfold findMarker? at found
    split at found
    · rename_i here
      cases found
      split at here
      · rename_i start
        obtain ⟨gap,wide,same,left,right,ends⟩ := markerHere?_eq_some here
        exact ⟨gap,wide,by simpa using same,left,right,ends,.inl ⟨rfl,start⟩⟩
      · cases here
    · obtain ⟨⟨front,more⟩,later,same⟩ := Option.map_eq_some_iff.1 found
      cases same
      obtain ⟨gap,wide,same,left,right,ends,start⟩ := ih later
      refine ⟨gap,wide,by rw [same]; rfl,left,right,ends,.inr ?_⟩
      rcases start with ⟨rfl,feed⟩ | ⟨front_,rfl⟩
      · exact ⟨[],by rw [of_decide_eq_true feed]; rfl⟩
      · exact ⟨c :: front_,rfl⟩

namespace Traced

/-- A place where the marker of a body stands in a text. -/
structure Found (i : Nat) (x : Traced) (s : Site) : Prop where
  parts : x = s.before ++ s.found ++ s.behind
  same : findMarker? i true x.text = some (s.before.text,s.ending,s.behind.text)
  shape : ∃ gap wide, s.found.text = gap ++ marker i ++ wide ++ s.ending ∧
    (∀ c ∈ gap, isGap c = true) ∧ (∀ c ∈ wide, isGap c = true)
  ending : s.ending = "\r\n" ∨ s.ending = "\n" ∨ s.ending = []
  start : s.before = [] ∨ ∃ front, s.before.text = front ++ ['\n']

theorem found_of_site? {i : Nat} {x : Traced} {s : Site} (here : x.site? i = some s) : x.Found i s := by
  obtain ⟨⟨before,ending,behind⟩,found,rfl⟩ := Option.map_eq_some_iff.1 here
  obtain ⟨gap,wide,same,left,right,ends,start⟩ := findMarker?_eq_some found
  have size := congrArg List.length same
  rw [length_text,List.length_append,List.length_append] at size
  have first : text (x.take before.length) = before := by
    rw [text_take,same,List.append_assoc,List.take_left]
  have last : text (x.drop (x.length - behind.length)) = behind := by
    rw [text_drop,same]
    exact List.drop_left' (by rw [List.length_append]; omega)
  have rest : x.drop (x.length - behind.length) =
      (x.drop before.length).drop (x.length - before.length - behind.length) := by
    rw [List.drop_drop]
    congr 1
    omega
  refine ⟨?_,by rw [first,last,found],?_,ends,?_⟩
  · dsimp only
    rw [rest,List.append_assoc,List.take_append_drop,List.take_append_drop]
  · refine ⟨gap,wide,?_,left,right⟩
    dsimp only
    rw [text_take,text_drop,same,List.append_assoc,List.drop_left]
    exact List.take_left' (by omega)
  · rcases start with ⟨rfl,_⟩ | ⟨front,rfl⟩
    · exact .inl rfl
    · exact .inr ⟨front,first⟩

theorem text_filled (i : Nat) (body ending : Text) : (filled i body ending).text = withEnding body ending := by
  unfold filled
  rw [text_append,text_of,text_of]
  unfold withEnding
  split
  · simp
  · simp

/-- The run on traced characters puts the same text together. -/
theorem text_place (index : Nat) (x : Traced) (bodies : List Text) :
    ((x.place index bodies).1.text,(x.place index bodies).2.map Prod.fst) =
      Outline.place index x.text bodies := by
  induction bodies generalizing index x with
  | nil => rfl
  | cons body rest ih =>
    unfold place Outline.place
    cases here : x.site? index with
    | some s =>
      have later := ih (index + 1) (put s index body)
      unfold put at later
      rw [text_append,text_append,text_filled] at later
      rw [(found_of_site? here).same]
      exact later
    | none =>
      rw [Option.map_eq_none_iff.1 here]
      have later := ih (index + 1) x
      rw [← later]
      rfl

theorem text_block (missing : List (Text × Nat)) :
    (block missing).text = ((missing.map Prod.fst).map feedClosed).flatten := by
  induction missing with
  | nil => rfl
  | cons m rest ih =>
    have closed : m.1 ++ (feedClosed m.1).drop m.1.length = feedClosed m.1 := by
      unfold feedClosed
      split
      · simp
      · simp
    change text ((of (.body m.2) m.1 ++ of .added ((feedClosed m.1).drop m.1.length)) ++ block rest) = _
    rw [text_append,text_append,text_of,text_of,closed,ih]
    rfl

end Traced

/-- The missing bodies go to one place of the text, which is as before around them. -/
theorem insertMissing_eq (closing result : Text) (missing : List Text) :
    let block := (missing.map feedClosed).flatten
    insertMissing closing result missing = result.take (cutAt closing result) ++
      parting closing result block ++ block ++ result.drop (cutAt closing result) := by
  intro block
  unfold insertMissing cutAt parting
  cases found : cutLast? closing result with
  | none =>
    dsimp only
    rw [List.take_length,List.drop_length,List.append_nil]
    change _ ++ block = _
    cases result with
    | nil => rfl
    | cons c r =>
      rw [List.isEmpty_cons,if_neg Bool.false_ne_true,Bool.false_or]
      unfold feedClosed
      cases closed : endsWith "\n" (c :: r) with
      | true => simp
      | false => simp
  | some p =>
    obtain ⟨before,behind⟩ := p
    have same := cutLast?_eq_some found
    dsimp only
    split
    · rename_i blank_
      have line : result = dropEndWhile (· ≠ '\n') before ++
          (takeEndWhile (· ≠ '\n') before ++ closing ++ behind) := by
        rw [← List.append_assoc,← List.append_assoc,dropEndWhile_append_takeEndWhile]
        exact same
      rw [line,List.take_left,List.drop_left,blank_,Bool.true_or,if_pos rfl]
      simp [block]
    · rename_i other
      rw [Bool.not_eq_true] at other
      rw [same,List.append_assoc before closing behind,List.take_left,List.drop_left,other,Bool.false_or]
      split
      · simp [block]
      · simp [block]

theorem Traced.text_reassemble (closing skeleton : Text) (bodies : List Text) :
    (Traced.reassemble closing skeleton bodies).text = Outline.reassemble closing skeleton bodies := by
  have placed := Traced.text_place 0 (Traced.ofOutline skeleton) bodies
  rw [Traced.text_ofOutline] at placed
  unfold Traced.reassemble Outline.reassemble
  rw [← placed]
  generalize (Traced.ofOutline skeleton).place 0 bodies = done
  obtain ⟨x,missing⟩ := done
  cases missing with
  | nil => rfl
  | cons m rest =>
    have inserted := insertMissing_eq closing x.text ((m :: rest).map Prod.fst)
    dsimp only at inserted ⊢
    rw [← Traced.text_block] at inserted
    rw [if_neg (by simp),if_neg (by simp),inserted,Traced.text_append,Traced.text_append,Traced.text_append,
      Traced.text_of,Traced.text_take,Traced.text_drop]

end Recast.Outline
