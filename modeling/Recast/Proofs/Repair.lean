import Recast.Proofs.Dialogue.Echo
import Recast.Proofs.Number.Numeral
import Recast.Proofs.Path
import Recast.Proofs.Target.Blocks
import Recast.Proofs.Text.Line
import Recast.Repair

/-! Repair with a service that sends every line back. No replacement differs from its line, so that
the code stays as it is, whatever is wrong with it. -/
namespace Recast
open Text

namespace Text

private theorem takeWhile_none {p : Char → Bool} {s : Text} (none_ : ∀ c ∈ s, p c = false) :
    s.takeWhile p = [] ∧ s.dropWhile p = s := by
  cases s with
  | nil => exact ⟨rfl,rfl⟩
  | cons c s => simp [none_ c (by simp)]

theorem dropEndWhile_of_none {p : Char → Bool} {s : Text} (none_ : ∀ c ∈ s, p c = false) :
    dropEndWhile p s = s := by
  unfold dropEndWhile
  rw [(takeWhile_none (fun c member => none_ c (List.mem_reverse.1 member))).2,List.reverse_reverse]

theorem ending_append {body e : Text} (plain : Unbroken body)
    (feeds : ∀ c ∈ e, isReturnOrFeed c = true) :
    ending (body ++ e) = e ∧ dropEnding (body ++ e) = body := by
  have closed : ∀ c ∈ e.reverse, isReturnOrFeed c = true := fun c member =>
    feeds c (List.mem_reverse.1 member)
  have none_ : ∀ c ∈ body.reverse, isReturnOrFeed c = false := fun c member => by
    have unbroken := plain c (List.mem_reverse.1 member)
    cases held : isReturnOrFeed c with
    | false => rfl
    | true =>
      rcases (by simpa [isReturnOrFeed] using held : c = '\r' ∨ c = '\n') with rfl | rfl <;>
        cases unbroken
  unfold ending dropEnding takeEndWhile dropEndWhile
  rw [List.reverse_append,List.takeWhile_append_of_pos closed,List.dropWhile_append_of_pos closed,
    (takeWhile_none none_).1,(takeWhile_none none_).2]
  simp

end Text

theorem Patch.replacementLines_self {body e : Text} (plain : Unbroken body)
    (shape : e = [] ∨ e = ['\n'] ∨ e = ['\r','\n']) (filled : blank (body ++ e) = false) :
    Patch.replacementLines (body ++ e) (body ++ e) = [body ++ e] := by
  have feeds : ∀ c ∈ e, isReturnOrFeed c = true := by
    rcases shape with rfl | rfl | rfl <;> exact List.all_eq_true.1 rfl
  have open_ : '\n' ∉ body := plain.notMem rfl
  have returns : ∀ c ∈ body, decide (c = '\r') = false := fun c member => by
    have other : c ≠ '\r' := fun same => plain.notMem (c := '\r') rfl (same ▸ member)
    simpa using other
  unfold Patch.replacementLines
  rw [filled,(ending_append plain feeds).1,(ending_append plain feeds).2,pieces_of_notMem open_]
  simp [dropEndWhile_of_none returns]

namespace Repairer

def instructionIntro : Text := "The line below does not parse as "

/-- What follows the name of the language in an instruction. -/
def instructionRest : Text :=
  ". Rewrite it so that it does, keeping its meaning. Return only the replacement line(s), nothing else."

theorem instruction_eq (language : Text) :
    instruction language = instructionIntro ++ (language ++ instructionRest) := by
  have rest : (". Rewrite it so that it does, " : Text) ++
      "keeping its meaning. Return only the replacement line(s), nothing else." = instructionRest := by
    decide +kernel
  unfold instruction instructionIntro
  rw [← rest,List.append_assoc,List.append_assoc]

theorem trim_eq_self {s : Text} {c d : Char} (left : isBlank c = false) (right : isBlank d = false) :
    trim (c :: (s ++ [d])) = c :: (s ++ [d]) := by
  simp [trim,trimLeft,trimRight,dropEndWhile,left,right]

/-- A text between two others that begin and end with no blank, and none of which has the word. -/
private theorem lacks_between {r s left inner feeds : Text} {a b c d : Char} (begins : isBlank a = false)
    (ends : isBlank d = false) (absent : c ∉ a :: left) (fresh : b ∉ c :: r)
    (middle : Lacks (c :: r) s) (right : Lacks (c :: r) (b :: inner ++ d :: feeds)) :
    Lacks (c :: r) (trim (a :: left ++ (s ++ (b :: inner ++ [d]))) ++ feeds) := by
  have whole := trim_eq_self (s := left ++ (s ++ b :: inner)) begins ends
  have same : a :: left ++ (s ++ (b :: inner ++ [d])) = a :: (left ++ (s ++ b :: inner) ++ [d]) := by
    simp
  have parts : a :: (left ++ (s ++ b :: inner) ++ [d]) ++ feeds =
      (a :: left) ++ (s ++ b :: (inner ++ d :: feeds)) := by simp
  rw [same,whole,parts]
  exact (middle.append_of_fresh fresh right).append_of_head absent

/-- An instruction does not announce code unless the name of the language does. -/
theorem lacks_instruction {language : Text} (quiet : Lacks Session.codeHeading language) :
    Lacks Session.codeHeading (trim (instruction language) ++ "\n\n") := by
  have intro_ : instructionIntro = 'T' :: instructionIntro.tail := by decide +kernel
  have rest : instructionRest = '.' :: instructionRest.tail.dropLast ++ ['.'] := by decide +kernel
  have heading : Session.codeHeading = 'C' :: Session.codeHeading.tail := by decide +kernel
  rw [instruction_eq,intro_,rest]
  rw [heading] at quiet ⊢
  exact lacks_between rfl rfl (by decide +kernel) (by decide +kernel) quiet (by decide +kernel)

theorem headingWord_eq : headingWord = 'C' :: headingWord.tail := by decide +kernel

/-- The number of a line, with the mark on the line that is asked about. -/
def numbering (place i : Nat) : Text :=
  let number := Numeral.ofNat (i + 1)
  List.replicate (5 - number.length) ' ' ++ number ++ (if i = place then ">" else " ") ++ " "

private theorem notMem_numbering (place i : Nat) : 'C' ∉ numbering place i := by
  have digits : 'C' ∉ Numeral.ofNat (i + 1) := fun member =>
    Numeral.forall_mem_ofNat (p := (· ≠ 'C')) (by decide) (i + 1) 'C' member rfl
  have mark : 'C' ∉ (if i = place then ">" else " ").toList := by split <;> decide
  have gap : 'C' ∉ (" " : Text) := by decide
  unfold numbering
  simp only [List.mem_append,List.mem_replicate,digits,mark,gap,or_false]
  rintro ⟨_,same⟩
  cases same

private theorem lacks_numberedLine {line rest : Text} (free : Lacks headingWord line)
    (later : Lacks headingWord rest) (place i : Nat) :
    Lacks headingWord (numberedLine place i line ++ rest) := by
  have shape : numberedLine place i line ++ rest =
      numbering place i ++ (trimRight line ++ '\n' :: rest) := by
    change (numbering place i ++ trimRight line ++ ['\n']) ++ rest = _
    simp
  have inside : trimRight line <:+: line :=
    ⟨[],takeEndWhile isBlank line,dropEndWhile_append_takeEndWhile isBlank line⟩
  have trimmed := free.of_within inside
  rw [shape]
  rw [headingWord_eq] at trimmed later ⊢
  exact (trimmed.append_around (by decide +kernel) later).append_of_head (notMem_numbering place i)

private theorem lacks_numberedLines {ls : List Text} (free : ∀ line ∈ ls, Lacks headingWord line)
    (number : Nat → Nat) (place : Nat) :
    Lacks headingWord (ls.mapIdx fun i line => numberedLine place (number i) line).flatten := by
  induction ls generalizing number with
  | nil => exact fun found => absurd (List.eq_nil_of_infix_nil found) (by decide)
  | cons line rest ih =>
    rw [List.mapIdx_cons,List.flatten_cons]
    exact lacks_numberedLine (free line (by simp))
      (ih (fun other member => free other (by simp [member])) fun i => number (i + 1)) place _

theorem lacks_neighbourhood {ls : List Text} (free : ∀ line ∈ ls, Lacks headingWord line)
    (place : Nat) : Lacks headingWord (neighbourhood ls place) :=
  lacks_numberedLines
    (fun line member => free line (List.mem_of_mem_take (List.mem_of_mem_drop member))) _ place

theorem lacks_context {ls : List Text} (free : ∀ line ∈ ls, Lacks headingWord line) (place : Nat)
    {issue : Issue} (shown : 'C' ∉ issue.shown) : Lacks headingWord (context ls place issue) := by
  have shownAt := lacks_neighbourhood free place
  have error : 'C' ∉ ("Error: " : Text) := by decide +kernel
  have surrounding : 'C' ∉ ("\nSurrounding lines:\n" : Text) := by decide +kernel
  unfold context
  rw [List.append_assoc,List.append_assoc,headingWord_eq] at *
  exact ((shownAt.append_of_head surrounding).append_of_head shown).append_of_head error

/-- An issue whose line is there and is not blank. -/
def Located (code : Text) (issue : Issue) : Prop :=
  ∃ (i : Nat) (line : Text), issue.line = i + 1 ∧ (lines code)[i]? = some line ∧ blank line = false

/-- A code that a service of the kind considered sends back line by line. -/
structure Steady (r : Repairer) (code : Text) : Prop where
  plain : Plain code
  feeds : OnlyFeeds code
  located : ∀ issue ∈ r.issues code, Located code issue
  shown : ∀ issue ∈ r.issues code, 'C' ∉ issue.shown

/-- The code is the best one seen, and the line is open. -/
def Kept (code : Text) (issues : List Issue) (s : RepairState) : Prop :=
  s.best = (code,issues) ∧ s.line.Running

section
variable {r : Repairer} {code : Text} (echoes : Echoes r.session.service)
  (goesOn : r.session.service.GoesOn) (tags : r.session.language.tags = .standard)
  (quiet : Lacks Session.codeHeading r.session.language.target) (steady : Steady r code)
include echoes goesOn tags quiet steady

/-- What is asked for a line is the line. -/
theorem gives_requestFix {issues : List Issue} {issue : Issue} {place : Nat} {line : Text}
    (member : issue ∈ r.issues code) (here : (lines code)[place]? = some line) :
    Steps.Gives (Kept code issues) (r.requestFix (lines code) place issue) (· = some line) := by
  have within (other : Text) (inside : other ∈ lines code) : Plain other :=
    steady.plain.of_within (by rw [← flatten_lines code]; exact List.infix_of_mem_flatten inside)
  have silent := Session.lacks_preface (lacks_instruction quiet)
    (lacks_context (fun other inside => within other inside headingWord (by simp [reserved])) place
      (steady.shown issue member))
  intro state kept
  obtain ⟨⟨sent,history⟩,talked,same,rfl,running⟩ :=
    r.session.gives_convert echoes goesOn tags silent (within line (List.mem_of_getElem? here))
      (state.history.getD r.session.newHistory) state.line kept.2
  refine ⟨some _,{ state with
    line := talked, history := state.history.map fun _ => history, asked := sent :: state.asked },
    ?_,rfl,kept.1,running⟩
  simp only [requestFix,Steps.run_bind,Steps.run_get,Steps.run_set,Steps.run_pure,here,
    Option.getD_some,same]

theorem gives_fix {issues : List Issue} {issue : Issue} (member : issue ∈ r.issues code) (p : Patch)
    (same : p.lines = lines code) (still : p.offset = 0) :
    Steps.Gives (Kept code issues) (r.fix p issue) (· = none) := by
  obtain ⟨i,line,number,here,filled⟩ := steady.located issue member
  have place : p.place? issue = some i := by
    have bound : i < (lines code).length := (List.getElem?_eq_some_iff.1 here).1
    have fits : ¬ (issue.line < 1 ∨ issue.line + p.offset < 1 ∨
        ((lines code).length : Int) < issue.line + p.offset) := by omega
    have target : (issue.line + p.offset - 1).toNat = i := by omega
    unfold Patch.place?
    simp only [same,Bool.or_eq_true,decide_eq_true_eq,or_assoc,if_neg fits,target]
  obtain ⟨unbroken,shape⟩ := steady.feeds line (List.mem_of_getElem? here)
  generalize bare line = body at unbroken shape
  have replaced : Patch.replacementLines line line = [line] := by
    rcases shape with rfl | rfl | rfl
    · simpa using Patch.replacementLines_self (e := []) unbroken (by simp) (by simpa using filled)
    · exact Patch.replacementLines_self unbroken (by simp) filled
    · exact Patch.replacementLines_self unbroken (by simp) filled
  have unchanged : p.substitute? i line = none := by
    unfold Patch.substitute?
    simp only [same,here,replaced,if_true]
  unfold fix
  rw [place,same]
  refine Steps.Gives.bind (Steps.Gives.modify ?_) fun _ _ => ?_
  · exact fun _ kept => kept
  refine (gives_requestFix echoes goesOn tags quiet steady member here).bind fun _ got => ?_
  subst got
  simp only [unchanged]
  exact .pure rfl

theorem gives_pass {issues : List Issue} (inside : ∀ issue ∈ issues, issue ∈ r.issues code) {p : Patch}
    (same : p.lines = lines code) (still : p.offset = 0) :
    Steps.Gives (Kept code (r.issues code)) (r.pass issues p) (· = p) := by
  induction issues with
  | nil => exact .pure rfl
  | cons issue rest ih =>
    refine (gives_fix echoes goesOn tags quiet steady (inside issue (by simp)) p same still).bind
      fun _ none_ => ?_
    subst none_
    exact ih fun other member => inside other (by simp [member])

/-- A repair gives back the code as it is. -/
theorem gives_passes (left depth : Nat) :
    Steps.Gives (Kept code (r.issues code)) (r.passes left depth code (r.issues code)) (· = code) := by
  have gaveUp : Steps.Gives (Kept code (r.issues code)) exhausted (· = code) := by
    intro s kept
    exact ⟨s.best.1,_,rfl,by rw [kept.1],kept⟩
  unfold passes
  refine Steps.Gives.bind (Steps.Gives.modify ?_) fun _ _ => ?_
  · exact fun _ kept => kept
  split
  · refine Steps.Gives.bind (Steps.Gives.modify ?_) fun _ _ => .pure rfl
    exact fun _ kept => kept
  · cases left with
    | zero => exact gaveUp
    | succ left =>
      refine (gives_pass echoes goesOn tags quiet steady (fun _ member => member) rfl rfl).bind
        fun _ same => ?_
      subst same
      exact gaveUp

end

end Repairer

end Recast
