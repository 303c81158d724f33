import Mathlib.Data.List.MinMax
import Recast.Proofs.Dialogue.Following
import Recast.Proofs.Dialogue.Session
import Recast.Target.Blocks

/-! What a repair gives back, and what it says of it. Of all the codes that it looked at, the one it
began with included, it gives back the first of those with the fewest issues. -/
namespace Recast
open Steps

namespace Repairer
variable (r : Repairer)

/-- How many issues a code has. -/
def count (code : Text) : Nat := (r.issues code).length

/-- What holds all through the repair of a code: the best code is the first of the best ones that were
checked, and a line was sent for every attempt. -/
structure Fair (code : Text) (s : RepairState) : Prop where
  first : List.argmin r.count (code :: s.checked.reverse) = some s.best.1
  issues : s.best.2 = r.issues s.best.1
  attempts : s.report.attempts = s.asked.length
  going : s.report.exhausted = false

/-- A repair in one of its passes. As soon as the code of the pass has no issues it is the best one. -/
structure Stands (code : Text) (depth : Nat) (p : Patch) (s : RepairState) : Prop
    extends r.Fair code s where
  depth : s.report.depth = depth
  remaining : p.remaining = r.issues p.code
  done : p.remaining = [] → s.best.1 = p.code
  wanting : p.remaining ≠ [] → s.best.2 ≠ []

/-- A repair that has ended with a code. -/
structure Settled (code result : Text) (depth : Nat) (s : RepairState) : Prop where
  first : List.argmin r.count (code :: s.checked.reverse) = some result
  remaining : s.report.remaining = r.issues result
  exhausted : s.report.exhausted = false ↔ r.issues result = []
  depth : s.report.depth ≤ depth
  attempts : s.report.attempts = s.asked.length

variable {r} {code : Text} {s : RepairState}

/-- A code that is checked becomes the best one if it has fewer issues than all before it. -/
theorem Fair.argmin_better (fair : r.Fair code s) (found : Text) :
    List.argmin r.count (code :: (found :: s.checked).reverse) =
      some (better s.best found (r.issues found)).1 := by
  rw [List.reverse_cons,← List.cons_append,List.argmin_concat,fair.first]
  unfold better
  rw [fair.issues]
  change (if r.count found < r.count s.best.1 then some found else some s.best.1) =
    some (if r.count found < r.count s.best.1 then _ else _ : Text × List Issue).1
  split
  · rfl
  · rfl

theorem Fair.check (fair : r.Fair code s) (p : Patch) :
    r.Fair code { s with best := better s.best p.code (r.issues p.code), checked := p.code :: s.checked } where
  first := fair.argmin_better p.code
  issues := by
    unfold better
    split
    · rfl
    · exact fair.issues
  attempts := fair.attempts
  going := fair.going

theorem run_check (p : Patch) (s : RepairState) : (r.check p).run.run s =
    (.ok { p with remaining := r.issues p.code },
      { s with best := better s.best p.code (r.issues p.code), checked := p.code :: s.checked }) := rfl

/-- A pass goes on with the code that it checked. -/
theorem Stands.check {depth : Nat} {p q : Patch} (stands : r.Stands code depth p s)
    (open_ : p.remaining ≠ []) :
    ∃ t, (r.check q).run.run s = (.ok { q with remaining := r.issues q.code },t) ∧
      r.Stands code depth { q with remaining := r.issues q.code } t := by
  have wanting := List.length_pos_iff.2 (stands.wanting open_)
  refine ⟨_,run_check q s,stands.toFair.check q,stands.depth,rfl,fun none_ => ?_,fun some_ => ?_⟩
  · change r.issues q.code = [] at none_
    unfold better
    rw [none_]
    exact congrArg Prod.fst (if_pos wanting)
  · unfold better
    split
    · exact some_
    · exact stands.wanting open_

section
variable (replies : r.session.service.Replies)
include replies

/-- A line is sent, and then there is a replacement or none. -/
theorem exists_requestFix (lines : List Text) (place : Nat) (issue : Issue) (s : RepairState) :
    ∃ found history line, (r.requestFix lines place issue).run.run s =
      (.ok found,{ s with
        line := line, history := history, asked := (lines[place]?).getD [] :: s.asked }) := by
  have told := r.session.ends_convert replies.obeys_ask (instruction r.session.language.target)
    ((lines[place]?).getD []) (context lines place issue) (s.history.getD r.session.newHistory) s.line
  rw [run_requestFix]
  generalize (r.session.convert (instruction r.session.language.target) ((lines[place]?).getD [])
    (context lines place issue) (s.history.getD r.session.newHistory)).run.run s.line = answer at told
  obtain ⟨result,line⟩ := answer
  cases result with
  | ok found => exact ⟨some found.1,_,line,rfl⟩
  | error e =>
    rcases told with impossible | ⟨attempts,partialCode,rfl⟩
    · exact impossible.elim
    · exact ⟨none,_,line,rfl⟩

/-- An issue leaves the pass where it was, or the pass goes on with another code. -/
theorem Stands.fix {depth : Nat} {p : Patch} (stands : r.Stands code depth p s)
    (open_ : p.remaining ≠ []) (issue : Issue) :
    ∃ found t, (r.fix p issue).run.run s = (.ok found,t) ∧
      r.Stands code depth (found.getD p) t ∧ ∀ q, found = some q → q.substituted = true := by
  unfold Repairer.fix
  cases p.place? issue with
  | none => exact ⟨none,s,rfl,stands,by simp⟩
  | some place =>
    obtain ⟨found,history,line,asked⟩ := exists_requestFix replies p.lines place issue
      { s with report := { s.report with attempts := s.report.attempts + 1 } }
    have sent : r.Stands code depth p { s with
        line := line, history := history, asked := (p.lines[place]?).getD [] :: s.asked
        report := { s.report with attempts := s.report.attempts + 1 } } :=
      ⟨⟨stands.first,stands.issues,congrArg (· + 1) stands.attempts,stands.going⟩,stands.depth,
        stands.remaining,stands.done,stands.wanting⟩
    dsimp only
    rw [run_bind,run_modify]
    dsimp only
    rw [run_bind,asked]
    cases found with
    | none => exact ⟨none,_,rfl,sent,by simp⟩
    | some replacement =>
      dsimp only
      cases substituted : p.substitute? place replacement with
      | none => exact ⟨none,_,rfl,sent,by simp⟩
      | some q =>
        obtain ⟨t,checked,later⟩ := sent.check (q := q) open_
        have put := Patch.substituted_of_substitute? substituted
        refine ⟨some _,t,?_,later,?_⟩
        · rw [run_map,checked]
          rfl
        · rintro _ ⟨⟩
          exact put

/-- A pass that put nothing in place has come no further. -/
theorem Stands.pass {depth : Nat} {p : Patch} (stands : r.Stands code depth p s)
    (open_ : p.remaining ≠ []) (issues : List Issue) :
    ∃ q t, (r.pass issues p).run.run s = (.ok q,t) ∧ r.Stands code depth q t ∧
      (q.substituted = true ∨ q.remaining ≠ []) := by
  induction issues generalizing p s with
  | nil => exact ⟨p,s,rfl,stands,.inr open_⟩
  | cons issue rest ih =>
    obtain ⟨found,t,fixed,later,put⟩ := stands.fix replies open_ issue
    unfold Repairer.pass
    rw [run_bind,fixed]
    cases found with
    | none => exact ih later open_
    | some q =>
      dsimp only [Option.getD_some] at later ⊢
      split
      · exact ⟨q,t,rfl,later,.inl (put q rfl)⟩
      · rename_i wanting
        exact ih later (by simpa using wanting)

omit replies in
theorem Fair.exhausted (fair : r.Fair code s) (wanting : s.best.2 ≠ []) {depth : Nat}
    (within : s.report.depth ≤ depth) :
    ∃ result t, Repairer.exhausted.run.run s = (.ok result,t) ∧ r.Settled code result depth t := by
  refine ⟨_,_,run_exhausted s,fair.first,fair.issues,?_,within,fair.attempts⟩
  rw [← fair.issues]
  simpa using wanting

omit replies in
theorem Fair.finished (fair : r.Fair code s) (clean : r.issues s.best.1 = []) {depth : Nat}
    (within : s.report.depth ≤ depth) :
    ∃ t, (finished s.best.1).run.run s = (.ok s.best.1,t) ∧ r.Settled code s.best.1 depth t := by
  refine ⟨_,rfl,fair.first,clean.symm,?_,within,fair.attempts⟩
  rw [clean]
  exact iff_of_true fair.going rfl

theorem Fair.passes (fair : r.Fair code s) (wanting : s.best.2 ≠ []) {found : Text}
    (open_ : r.issues found ≠ []) (left depth : Nat) :
    ∃ result t, (r.passes left depth found (r.issues found)).run.run s = (.ok result,t) ∧
      r.Settled code result (depth + left) t := by
  induction left generalizing depth found s with
  | zero =>
    have begun : r.Fair code { s with report := { s.report with depth := depth } } :=
      ⟨fair.first,fair.issues,fair.attempts,fair.going⟩
    unfold Repairer.passes
    rw [run_bind,run_modify]
    dsimp only
    rw [if_neg (by simpa using open_)]
    exact begun.exhausted wanting (Nat.le_refl depth)
  | succ left ih =>
    have begun : r.Stands code depth { lines := Text.lines found, remaining := r.issues found }
        { s with report := { s.report with depth := depth } } :=
      ⟨⟨fair.first,fair.issues,fair.attempts,fair.going⟩,rfl,
        congrArg r.issues (Text.flatten_lines found).symm,fun none_ => absurd none_ open_,fun _ => wanting⟩
    obtain ⟨q,t,passed,later,put⟩ := begun.pass replies open_ (r.issues found)
    have within : t.report.depth ≤ depth + (left + 1) := later.depth ▸ Nat.le_add_right _ _
    unfold Repairer.passes
    rw [run_bind,run_modify]
    dsimp only
    rw [if_neg (by simpa using open_),run_bind,passed]
    dsimp only
    split
    · rename_i none_
      exact later.toFair.exhausted (later.wanting (put.resolve_left (by simpa using none_))) within
    · split
      · rename_i clean
        have best := later.done (by simpa using clean)
        have issues : r.issues t.best.1 = [] := by
          rw [best,← later.remaining]
          simpa using clean
        rw [← best]
        obtain ⟨u,ends,settled⟩ := later.toFair.finished issues within
        exact ⟨_,u,ends,settled⟩
      · rename_i some_
        have some_ : q.remaining ≠ [] := by simpa using some_
        obtain ⟨result,u,ends,settled⟩ := ih later.toFair (later.wanting some_)
          (later.remaining ▸ some_) (depth + 1)
        rw [later.remaining]
        refine ⟨result,u,ends,?_⟩
        rwa [Nat.add_assoc,Nat.add_comm 1] at settled

theorem settled_repair (code : Text) (history : Option History) (line : Line) :
    ∃ result s, r.repair code (r.issues code) history line = (.ok result,s) ∧
      r.Settled code result r.maxDepth s := by
  have fair : r.Fair code { line := line, history := history, best := (code,r.issues code) } :=
    ⟨rfl,rfl,rfl,rfl⟩
  unfold repair
  by_cases clean : r.issues code = []
  · obtain ⟨t,ends,settled⟩ := fair.finished clean (Nat.zero_le r.maxDepth)
    refine ⟨code,t,?_,settled⟩
    rw [← ends]
    unfold passes
    rw [run_bind,run_modify]
    dsimp only
    rw [if_pos (by simpa using clean)]
  · obtain ⟨result,t,ends,settled⟩ := fair.passes replies clean clean r.maxDepth 0
    rw [Nat.zero_add] at settled
    exact ⟨result,t,ends,settled⟩

end

/-- A repair comes to an end, whatever is answered. What it says is left is what is wrong with the code
that it gives back, and it has given up exactly if something is. No code that was checked on the way,
and not the one that it began with, has fewer issues, and none before it as few. -/
theorem repair_best (r : Repairer) (replies : r.session.service.Replies) (code : Text)
    (history : Option History) (line : Line) :
    ∃ result s, r.repair code (r.issues code) history line = (.ok result,s) ∧
      s.report.remaining = r.issues result ∧
      (s.report.exhausted = false ↔ r.issues result = []) ∧
      (r.issues result).length ≤ (r.issues code).length ∧
      List.argmin (fun version => (r.issues version).length) (code :: s.checked.reverse) = some result ∧
      s.report.depth ≤ r.maxDepth ∧ s.report.attempts = s.asked.length := by
  obtain ⟨result,s,ends,settled⟩ := settled_repair replies code history line
  have fewest := List.le_of_mem_argmin (List.mem_cons_self) settled.first
  exact ⟨result,s,ends,settled.remaining,settled.exhausted,fewest,settled.first,settled.depth,
    settled.attempts⟩

/-- The first request is answered with a line that is fine, every later one with two that are not. -/
def fading : Session where
  service := {
    answer := fun past _ => { outcome := .reply (.text (match past with
      | [] => "<code>x\n</code>"
      | _ => "<code>\x7d\n\x7d\n</code>")) }
    reachable := .reply (.text "yes") }
  language := {
    target := "plain", inputExtension := ".src", outputExtension := ".out", prompt := "Translate." }
  run := {}

/-- The one good replacement is kept, though the code grows worse from then on. -/
theorem repair_best_fading :
    let r : Repairer := ⟨fading,Symbols.issues .braces,2⟩
    let code : Text := "\x7d\n\x7d\n"
    (r.repair code (r.issues code) none {}).1.toOption = some "x\n\x7d\n" ∧
      ∃ result s, r.repair code (r.issues code) none {} = (.ok result,s) ∧
        s.report.remaining = r.issues result ∧
        (s.report.exhausted = false ↔ r.issues result = []) ∧
        (r.issues result).length ≤ (r.issues code).length ∧
        List.argmin (fun version => (r.issues version).length) (code :: s.checked.reverse) = some result ∧
        s.report.depth ≤ r.maxDepth ∧ s.report.attempts = s.asked.length := by
  intro r code
  exact ⟨by decide +kernel,repair_best r (fun _ _ => ⟨_,rfl⟩) code none {}⟩

end Repairer

end Recast
