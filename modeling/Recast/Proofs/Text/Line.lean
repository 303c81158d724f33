import Recast.Proofs.Text.Search
import Recast.Text.Line

/-! Texts whose lines end with a line feed, or with a carriage return and a line feed. Lines of this
kind that are put behind each other are the lines of the text that they make up. -/
namespace Recast.Text

/-- No character of the text ends a line. -/
def Unbroken (s : Text) : Prop := ∀ c ∈ s, isBreak c = false

/-- A line with its line feed. -/
def FeedLine (line : Text) : Prop :=
  ∃ body, Unbroken body ∧ (line = body ++ ['\n'] ∨ line = body ++ ['\r','\n'])

/-- Lines of which only the last may lack its line feed. -/
def FeedLines : List Text → Prop
  | [] => True
  | [line] => FeedLine line ∨ (Unbroken line ∧ line ≠ [])
  | line :: rest => FeedLine line ∧ FeedLines rest

/-- No other line breaks than line feeds and carriage returns with a line feed. -/
def OnlyFeeds (s : Text) : Prop :=
  ∀ line ∈ lines s, Unbroken (bare line) ∧
    (line = bare line ∨ line = bare line ++ ['\n'] ∨ line = bare line ++ ['\r','\n'])

instance (s : Text) : Decidable (Unbroken s) := List.decidableBAll (fun c => isBreak c = false) s

instance (s : Text) : Decidable (OnlyFeeds s) :=
  inferInstanceAs (Decidable (∀ line ∈ lines s, Unbroken (bare line) ∧
    (line = bare line ∨ line = bare line ++ ['\n'] ∨ line = bare line ++ ['\r','\n'])))

theorem lines_ne_nil {s : Text} (filled : s ≠ []) : lines s ≠ [] := by
  intro none_
  apply filled
  rw [← flatten_lines s,none_]
  rfl

theorem flatten_flatMap_lines (texts : List Text) : (texts.flatMap lines).flatten = texts.flatten := by
  induction texts with
  | nil => rfl
  | cons t texts ih => rw [List.flatMap_cons,List.flatten_append,flatten_lines,ih,List.flatten_cons]

theorem Unbroken.notMem {s : Text} {c : Char} (plain : Unbroken s) (h : isBreak c = true) : c ∉ s :=
  fun member => by simp [plain c member] at h

theorem FeedLine.shape {line : Text} (closed : FeedLine line) :
    ∃ front : Text, '\n' ∉ front ∧ line = front ++ ['\n'] := by
  obtain ⟨body,plain,rfl | rfl⟩ := closed
  · exact ⟨body,plain.notMem rfl,rfl⟩
  · exact ⟨body ++ ['\r'],by simp [plain.notMem (c := '\n') rfl],by simp⟩

/-- A word without a line feed does not begin in a line and end behind it. -/
theorem FeedLine.lacks_append {c : Char} {r line s : Text} (closed : FeedLine line)
    (fresh : '\n' ∉ c :: r) (left : Lacks (c :: r) line) (right : Lacks (c :: r) s) :
    Lacks (c :: r) (line ++ s) := by
  obtain ⟨front,_,rfl⟩ := closed.shape
  rw [List.append_assoc]
  exact (left.of_within (List.prefix_append ..).isInfix).append_around fresh right

theorem FeedLine.endsWith {line : Text} (closed : FeedLine line) (s : Text) :
    Text.endsWith "\n" (s ++ line) = true := by
  obtain ⟨body,_,rfl | rfl⟩ := closed
  · exact List.isSuffixOf_iff_suffix.2 ⟨s ++ body,by simp⟩
  · exact List.isSuffixOf_iff_suffix.2 ⟨s ++ body ++ ['\r'],by simp⟩

theorem FeedLines.tail {line : Text} {rest : List Text} (h : FeedLines (line :: rest)) :
    FeedLines rest := by
  cases rest with
  | nil => trivial
  | cons next rest => exact h.2

theorem FeedLines.head {line : Text} {rest : List Text} (h : FeedLines (line :: rest))
    (more : rest ≠ []) : FeedLine line := by
  cases rest with
  | nil => exact absurd rfl more
  | cons next rest => exact h.1

theorem FeedLines.cons {line : Text} {rest : List Text} (closed : FeedLine line)
    (h : FeedLines rest) : FeedLines (line :: rest) := by
  cases rest with
  | nil => exact .inl closed
  | cons next rest => exact ⟨closed,h⟩

theorem FeedLines.closed_of_append {front back : List Text} (h : FeedLines (front ++ back))
    (more : back ≠ []) : ∀ line ∈ front, FeedLine line := by
  induction front with
  | nil => simp
  | cons line front ih =>
    intro other member
    rcases List.mem_cons.1 member with rfl | inside
    · exact FeedLines.head h (by simp [more])
    · exact ih h.tail other inside

theorem FeedLines.endsWith_flatten {front back : List Text} (h : FeedLines (front ++ back))
    (some_ : front ≠ []) (more : back ≠ []) : Text.endsWith "\n" front.flatten = true := by
  have closed := h.closed_of_append more _ (List.getLast_mem some_)
  rw [← List.dropLast_concat_getLast some_,List.flatten_append]
  simpa using closed.endsWith front.dropLast.flatten

theorem FeedLines.of_append {front back : List Text} (h : FeedLines (front ++ back)) :
    FeedLines back := by
  induction front with
  | nil => exact h
  | cons line front ih => exact ih h.tail

theorem FeedLines.of_within {ls before behind : List Text} (h : FeedLines (before ++ ls ++ behind)) :
    FeedLines ls := by
  rw [List.append_assoc] at h
  cases behind with
  | nil => simpa using h.of_append
  | cons line behind =>
    have closed := h.of_append.closed_of_append (by simp)
    clear h
    induction ls with
    | nil => trivial
    | cons first ls ih =>
      exact .cons (closed first (by simp)) (ih fun other member => closed other (by simp [member]))

theorem lines_cons_of_unbroken {c : Char} {s : Text} (plain : isBreak c = false) :
    lines (c :: s) = match lines s with
      | [] => [[c]]
      | line :: rest => (c :: line) :: rest := by
  have different : c ≠ '\r' := fun same => by subst same; simp [isBreak] at plain
  cases s with
  | nil => simp [lines,plain]
  | cons d s =>
    rw [lines]
    · exact if_neg (by simp [plain])
    · intro _ same
      exact absurd same different

theorem lines_of_unbroken {s : Text} (plain : Unbroken s) (some_ : s ≠ []) : lines s = [s] := by
  induction s with
  | nil => exact absurd rfl some_
  | cons c s ih =>
    rw [lines_cons_of_unbroken (plain c (by simp))]
    cases s with
    | nil => rfl
    | cons d s => rw [ih (fun e member => plain e (by simp [member])) (by simp)]

/-- Characters that end no line go before the first line. -/
theorem lines_append_unbroken {body broken s : Text} (plain : Unbroken body)
    (h : lines (broken ++ s) = broken :: lines s) :
    lines (body ++ broken ++ s) = (body ++ broken) :: lines s := by
  induction body with
  | nil => exact h
  | cons c body ih =>
    have tail := ih (fun e member => plain e (by simp [member]))
    rw [List.cons_append,List.cons_append,lines_cons_of_unbroken (plain c (by simp)),tail]

/-- A line with its line feed comes off as a whole. -/
theorem lines_append {line : Text} (closed : FeedLine line) (s : Text) :
    lines (line ++ s) = line :: lines s := by
  obtain ⟨body,plain,rfl | rfl⟩ := closed
  · exact lines_append_unbroken plain (by simp [lines,isBreak])
  · exact lines_append_unbroken plain (by simp [lines])

theorem lines_flatten {ls : List Text} (h : FeedLines ls) : lines ls.flatten = ls := by
  induction ls with
  | nil => rfl
  | cons line rest ih =>
    cases rest with
    | nil =>
      rcases h with closed | ⟨plain,some_⟩
      · simpa [lines] using lines_append closed []
      · simpa using lines_of_unbroken plain some_
    | cons next rest =>
      rw [List.flatten_cons,lines_append h.1,ih h.2]

private theorem mem_dropLast_cons {first line : Text} {rest : List Text}
    (member : line ∈ (first :: rest).dropLast) : (line = first ∧ rest ≠ []) ∨ line ∈ rest.dropLast := by
  cases rest with
  | nil => simp at member
  | cons next rest => simpa using member

/-- Every line but the last holds a break. -/
private theorem broken_of_mem_dropLast {s line : Text} (member : line ∈ (lines s).dropLast) :
    ∃ c ∈ line, isBreak c = true := by
  fun_induction lines s generalizing line with
  | case1 => simp at member
  | case2 r ih =>
    rcases mem_dropLast_cons member with ⟨rfl,_⟩ | later
    · exact ⟨'\n',by simp,rfl⟩
    · exact ih later
  | case3 c r _ breaks ih =>
    rcases mem_dropLast_cons member with ⟨rfl,_⟩ | later
    · exact ⟨c,by simp,breaks⟩
    · exact ih later
  | case4 c r _ _ held ih => simp at member
  | case5 c r _ _ l ls held ih =>
    rw [held] at ih
    rcases mem_dropLast_cons member with ⟨rfl,more⟩ | later
    · cases ls with
      | nil => exact absurd rfl more
      | cons next ls =>
        obtain ⟨d,inside,breaks⟩ : ∃ d ∈ l, isBreak d = true := ih (by simp)
        exact ⟨d,by simp [inside],breaks⟩
    · cases ls with
      | nil => simp at later
      | cons next ls => exact ih (by simp [later])

theorem OnlyFeeds.feedLines {s : Text} (feeds : OnlyFeeds s) : FeedLines (lines s) := by
  have broken (line : Text) (member : line ∈ (lines s).dropLast) := broken_of_mem_dropLast member
  have filled (line : Text) (member : line ∈ lines s) := ne_nil_of_mem_lines member
  unfold OnlyFeeds at feeds
  generalize lines s = ls at feeds broken filled
  induction ls with
  | nil => trivial
  | cons line rest ih =>
    obtain ⟨plain,shape⟩ := feeds line (by simp)
    generalize bare line = body at plain shape
    cases rest with
    | nil =>
      rcases shape with rfl | closed
      · exact .inr ⟨plain,filled _ (by simp)⟩
      · exact .inl ⟨body,plain,closed⟩
    | cons next rest =>
      refine ⟨?_,ih (fun other member => feeds other (by simp [member]))
        (fun other member => broken other (by simp [member]))
        (fun other member => filled other (by simp [member]))⟩
      rcases shape with rfl | closed
      · obtain ⟨c,inside,breaks⟩ := broken line (by simp)
        exact absurd inside (plain.notMem breaks)
      · exact ⟨body,plain,closed⟩

theorem bare_other {c : Char} {r : Text} {line : Text} (shape : line.reverse = c :: r)
    (other : c = '\n' → r.head? ≠ some '\r') : bare line = if isBreak c then r.reverse else line := by
  unfold bare
  rw [shape]
  split
  · rename_i q same
    obtain ⟨rfl,rfl⟩ := List.cons.inj same
    exact absurd rfl (other rfl)
  · rename_i d q _ same
    obtain ⟨rfl,rfl⟩ := List.cons.inj same
    rfl
  · rename_i same
    cases same

theorem bare_cons {c : Char} (plain : isBreak c = false) (line : Text) : bare (c :: line) = c :: bare line := by
  have feed : c ≠ '\r' := fun same => by
    subst same
    exact absurd plain (by decide)
  have longer : (c :: line).reverse = line.reverse ++ [c] := List.reverse_cons
  cases held : line.reverse with
  | nil =>
    obtain rfl := List.reverse_eq_nil_iff.1 held
    rw [bare_other longer fun _ => by simp,if_neg (by simp [plain])]
    rfl
  | cons d r =>
    rw [held,List.cons_append] at longer
    by_cases both : d = '\n' ∧ r.head? = some '\r'
    · obtain ⟨rfl,first⟩ := both
      obtain ⟨q,rfl⟩ := List.head?_eq_some_iff.1 first
      unfold bare
      rw [longer,held]
      simp
    · have short := bare_other held fun same first => both ⟨same,first⟩
      have long := bare_other longer fun same first => both ⟨same,by
        cases r with
        | nil => exact absurd (by simpa using first) feed
        | cons e r => simpa using first⟩
      rw [short,long,List.reverse_append]
      split
      · rfl
      · rfl

theorem bareLines_cons {c : Char} (plain : isBreak c = false) (s : Text) :
    bareLines (c :: s) = match bareLines s with
      | [] => [[c]]
      | line :: rest => (c :: line) :: rest := by
  have feed : c ≠ '\r' := fun same => by
    subst same
    exact absurd plain (by decide)
  unfold bareLines
  rw [lines,if_neg (by simp [plain])]
  · cases lines s with
    | nil => exact congrArg (· :: []) (bare_cons plain [])
    | cons line rest => exact congrArg (· :: rest.map bare) (bare_cons plain line)
  · exact fun _ same => absurd same feed

theorem bareLines_break {c : Char} (breaks : isBreak c = true) (s : Text)
    (apart : c = '\r' → s.head? ≠ some '\n') : bareLines (c :: s) = [] :: bareLines s := by
  unfold bareLines
  rw [lines,if_pos breaks]
  · simp [bare,breaks]
  · intro r same feed
    exact apart same (by rw [feed]; rfl)

/-- Line endings that are read as line feeds leave the lines as they are. -/
theorem bareLines_plainFeeds (s : Text) : bareLines (plainFeeds s) = bareLines s := by
  fun_induction plainFeeds s with
  | case1 => rfl
  | case2 r ih =>
    have both : bareLines ('\r' :: '\n' :: r) = [] :: bareLines r := rfl
    rw [bareLines_break (by decide) _ fun same => absurd same (by decide),both,ih]
  | case3 c r other ih =>
    have apart : c = '\r' → r.head? ≠ some '\n' := by
      intro same first
      obtain ⟨q,shape⟩ := List.head?_eq_some_iff.1 first
      exact other q same shape
    by_cases return_ : c = '\r'
    · rw [if_pos return_,bareLines_break (by decide) _ fun same => absurd same (by decide),
        bareLines_break (by rw [return_]; decide) _ apart,ih]
    · rw [if_neg return_]
      cases breaks : isBreak c with
      | true =>
        rw [bareLines_break breaks _ fun same => absurd same return_,
          bareLines_break breaks _ fun same => absurd same return_,ih]
      | false => rw [bareLines_cons breaks,bareLines_cons breaks,ih]

end Recast.Text
