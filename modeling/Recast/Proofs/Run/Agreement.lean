import Recast.Proofs.Dialogue.Agreement
import Recast.Proofs.Run.Frame

/-! The work on a group of files, done twice with services that reply alike. Neither the time nor the
commands that come with the replies change what is made of the files; they may only stop the work. -/
namespace Recast
open Steps

/-- The work was cancelled, or a file stood in its way. -/
def Stopped {α : Type} (r : Except RunError α) : Prop :=
  ∃ e, r = .error e ∧ (e = .cancelled ∨ e.OfFiles)

theorem Stopped.halted {α : Type} {r : Except RunError α} (stopped : Stopped r) :
    ∃ e, r = .error e ∧ e.Halted ∧ ∀ β : Type, Stopped (.error e : Except RunError β) := by
  obtain ⟨e,same,cancelled | fault⟩ := stopped
  · exact ⟨e,same,.inl cancelled,fun β => ⟨e,rfl,.inl cancelled⟩⟩
  · exact ⟨e,same,.inr fault.hindrance,fun β => ⟨e,rfl,.inr fault⟩⟩

/-- Steps that can only be stopped give the same, unless they are. -/
theorem Steps.Obeys.stopped {m : Run Unit} {good : Unit → Prop} {allowed : RunError → Prop}
    (obeys : Obeys m good allowed) (fine : ∀ e, allowed e → e = .cancelled ∨ e.OfFiles) (w : World) :
    Stopped (m.run.run w).1 ∨ (m.run.run w).1 = .ok () := by
  have told := obeys w
  cases same : (m.run.run w).1 with
  | ok u => exact .inr rfl
  | error e =>
    rw [same] at told
    exact .inl ⟨e,rfl,fine e told⟩

/-- Two answers are the same, unless one of them says that the work was stopped. -/
def Concur {α : Type} (r s : Except RunError α) : Prop := Stopped r ∨ Stopped s ∨ r = s

namespace Concur
variable {α β : Type} {m n : Run α} {w u : World}

theorem of_obeys {m n : Run Unit} {good : Unit → Prop} {allowed : RunError → Prop}
    (first : Obeys m good allowed) (second : Obeys n good allowed)
    (fine : ∀ e, allowed e → e = .cancelled ∨ e.OfFiles) (w u : World) :
    Concur (m.run.run w).1 (n.run.run u).1 := by
  rcases first.stopped fine w with stopped | done
  · exact .inl stopped
  · rcases second.stopped fine u with stopped | done_
    · exact .inr (.inl stopped)
    · exact .inr (.inr (done.trans done_.symm))

theorem bind {g h : α → Run β} (first : Concur (m.run.run w).1 (n.run.run u).1)
    (next : ∀ a, Concur ((g a).run.run (m.run.run w).2).1 ((h a).run.run (n.run.run u).2).1) :
    Concur ((m >>= g).run.run w).1 ((n >>= h).run.run u).1 := by
  rw [run_bind,run_bind]
  generalize m.run.run w = one at first next ⊢
  generalize n.run.run u = other at first next ⊢
  obtain ⟨r,w_⟩ := one
  obtain ⟨s,u_⟩ := other
  rcases first with stopped | stopped | equal
  · obtain ⟨e,rfl,_,stopped⟩ := stopped.halted
    exact .inl (stopped _)
  · obtain ⟨e,rfl,_,stopped⟩ := stopped.halted
    exact .inr (.inl (stopped _))
  · cases equal
    cases r with
    | ok a => exact next a
    | error e => exact .inr (.inr rfl)

/-- What goes on with every answer but that of a halt. -/
theorem observe {g h : Except RunError α → Run β} (first : Concur (m.run.run w).1 (n.run.run u).1)
    (halts : ∀ e : RunError, e.Halted → g (.error e) = throw e ∧ h (.error e) = throw e)
    (next : ∀ r, Concur ((g r).run.run (m.run.run w).2).1 ((h r).run.run (n.run.run u).2).1) :
    Concur ((Run.observe m >>= g).run.run w).1 ((Run.observe n >>= h).run.run u).1 := by
  rw [run_bind,run_bind,Run.run_observe,Run.run_observe]
  generalize m.run.run w = one at first next ⊢
  generalize n.run.run u = other at first next ⊢
  obtain ⟨r,w_⟩ := one
  obtain ⟨s,u_⟩ := other
  dsimp only at first next ⊢
  rcases first with stopped | stopped | equal
  · obtain ⟨e,rfl,halted,stopped⟩ := stopped.halted
    refine .inl ?_
    rw [(halts e halted).1]
    exact stopped _
  · obtain ⟨e,rfl,halted,stopped⟩ := stopped.halted
    refine .inr (.inl ?_)
    rw [(halts e halted).2]
    exact stopped _
  · cases equal
    exact next r

end Concur

namespace Converter
variable {c : Converter} {x y : Circumstance} {f : Request → Text}

theorem Works.summary {α : Type} {m n : Run α} (works : c.Works x y m n) {w u : World}
    (same : w.progress.map Progress.summary = u.progress.map Progress.summary) :
    (m.run.run w).2.progress.map Progress.summary = (n.run.run u).2.progress.map Progress.summary := by
  rw [(works.leaves w).progress,(works.symm.leaves u).progress,same]

variable (left : x.service.Answers f) (right : y.service.Answers f)
include left right

theorem Works.same {α : Type} {m n : Run α} (works : c.Works x y m n) (w u : World)
    (same : w.progress.map Progress.summary = u.progress.map Progress.summary) :
    Concur (m.run.run w).1 (n.run.run u).1 := by
  induction works generalizing w u with
  | pure a => exact .inr (.inr rfl)
  | throw e => exact .inr (.inr rfl)
  | bind first _ ih next => exact (ih w u same).bind fun a => next a _ _ (first.summary same)
  | attempt first _ halts ih next =>
    exact (ih w u same).observe halts fun r => next r _ _ (first.summary same)
  | emit e _ => exact .inr (.inr rfl)
  | poll => exact .of_obeys (Run.obeys_poll x.watches) (Run.obeys_poll y.watches) (fun e => .inl) w u
  | sleep seconds => exact .inr (.inr rfl)
  | convert prompt text context history =>
    have told := (Session.agree_convert left right c.session prompt text context history
      w.line u.line trivial).1
    exact .inr (.inr (congrArg (Except.mapError RunError.talk) told))
  | confirm code issues history =>
    have told := (Session.agree_confirm left right c.session repairQuestion
      ("Errors:\n" ++ Text.join "\n" (issues.map Issue.shown) ++ "\n\nCode:\n" ++ code) history
      w.line u.line trivial).1
    exact .inr (.inr (congrArg (Except.mapError RunError.talk) told))
  | repair code issues history =>
    have told := (Repairer.agree_passes left right c.repairer c.repairer.maxDepth 0 code issues
      { line := w.line, history := some history, best := (code,issues) }
      { line := u.line, history := some history, best := (code,issues) } ⟨rfl,rfl,rfl⟩).1
    exact .inr (.inr (congrArg (Except.mapError RunError.talk) told))
  | context given =>
    refine .inr (.inr ?_)
    unfold summaryContext
    split
    · rfl
    · rw [run_bind,run_bind,run_get,run_get]
      dsimp only
      rw [same]
      rfl
  | transcript source history =>
    exact .of_obeys ((c.under x).obeys_saveTranscript source history)
      ((c.under y).obeys_saveTranscript source history) (fun e => .inr) w u

end Converter
end Recast
