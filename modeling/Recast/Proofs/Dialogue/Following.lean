import Recast.Proofs.Dialogue.Service
import Recast.Repair

/-! Conversations with two services, request by request. As long as both reply alike, both come to the
same; where the first one breaks off, its error comes through to the end of the conversation. -/
namespace Recast

namespace Steps
variable {ε σ α β : Type} {R Q : σ → σ → Prop} {B : ε → σ → Prop}

/-- From related states both ways give the same and end in related states, unless the first one
breaks off. -/
def Follows (R Q : σ → σ → Prop) (B : ε → σ → Prop) (m n : Steps ε σ α) : Prop :=
  ∀ s t, R s t → ((m.run.run s).1 = (n.run.run t).1 ∧ Q (m.run.run s).2 (n.run.run t).2) ∨
    ∃ e, (m.run.run s).1 = .error e ∧ B e (m.run.run s).2

theorem Follows.pure (a : α) : Follows R R B (pure a : Steps ε σ α) (pure a) :=
  fun _ _ related => .inl ⟨rfl,related⟩

theorem Follows.throw (e : ε) : Follows R R B (throw e : Steps ε σ α) (throw e) :=
  fun _ _ related => .inl ⟨rfl,related⟩

theorem Follows.modify {f g : σ → σ} (kept : ∀ s t, R s t → R (f s) (g t)) :
    Follows R R B (modify f : Steps ε σ PUnit) (modify g) :=
  fun s t related => .inl ⟨rfl,kept s t related⟩

theorem Follows.ite {p : Prop} [Decidable p] {m n m_ n_ : Steps ε σ α} (yes : Follows R Q B m n)
    (no : Follows R Q B m_ n_) : Follows R Q B (if p then m else m_) (if p then n else n_) := by
  split
  · exact yes
  · exact no

/-- What comes last may loosen the relation between the states. -/
theorem Follows.bindLast {m n : Steps ε σ α} {f g : α → Steps ε σ β} (first : Follows R R B m n)
    (weaker : ∀ s t, R s t → Q s t) (next : ∀ a, Follows R Q B (f a) (g a)) :
    Follows R Q B (m >>= f) (n >>= g) := by
  intro s t related
  have before := first s t related
  rw [run_bind,run_bind]
  cases left : m.run.run s with
  | mk r s_ =>
    cases right : n.run.run t with
    | mk r_ t_ =>
      rw [left,right] at before
      rcases before with ⟨same,after⟩ | ⟨e,same,broken⟩
      · cases same
        cases r with
        | ok a => exact next a s_ t_ after
        | error e => exact .inl ⟨rfl,weaker s_ t_ after⟩
      · cases same
        exact .inr ⟨e,rfl,broken⟩

theorem Follows.bind {m n : Steps ε σ α} {f g : α → Steps ε σ β} (first : Follows R R B m n)
    (next : ∀ a, Follows R R B (f a) (g a)) : Follows R R B (m >>= f) (n >>= g) :=
  first.bindLast (fun _ _ related => related) next

end Steps

open Steps

section
variable {a b : Service} {R : Line → Line → Prop} {B : TalkError → Line → Prop}
  (asks : ∀ request, Follows R R B (a.ask request) (b.ask request))
include asks

namespace Session
variable (s : Session)

/-- The session with another service. -/
def on (s : Session) (service : Service) : Session := { s with service := service }

theorem follows_goOn (messages : List Message) (n : Nat) (code : Text) :
    Follows R R B ((s.on a).goOn messages n code) ((s.on b).goOn messages n code) := by
  induction n generalizing code with
  | zero => exact .pure _
  | succ n ih =>
    unfold goOn
    refine (asks _).bind fun reply => ?_
    exact .ite (.pure _) (.ite (.pure _) (ih _))

theorem follows_exchange (base : List Message) (request : Text) :
    Follows R R B ((s.on a).exchange base request) ((s.on b).exchange base request) := by
  unfold exchange
  refine (asks _).bind fun reply => ?_
  exact .ite (.pure _) (.ite (.pure _) (follows_goOn asks s _ _ _))

theorem follows_attempts (base : List Message) (request : Text) (n : Nat) (first : Bool) (code : Text) :
    Follows R R B ((s.on a).attempts base request n first code)
      ((s.on b).attempts base request n first code) := by
  induction n generalizing first code with
  | zero =>
    unfold attempts
    refine (follows_exchange asks s _ _).bind fun found => ?_
    exact .ite (.pure _) (.throw _)
  | succ n ih =>
    unfold attempts
    refine (follows_exchange asks s _ _).bind fun found => ?_
    exact .ite (.pure _) (ih _ _)

theorem follows_convert (prompt chunk context : Text) (history : History) :
    Follows R R B ((s.on a).convert prompt chunk context history)
      ((s.on b).convert prompt chunk context history) :=
  .ite (.pure _) ((follows_attempts asks s _ _ _ _ _).bind fun _ => .pure _)

theorem follows_confirm (question context : Text) (history : History) :
    Follows R R B ((s.on a).confirm question context history)
      ((s.on b).confirm question context history) := by
  unfold confirm
  exact (asks _).bind fun _ => .pure _

omit asks in
theorem follows_replyText (reply : Reply) :
    Follows R R B (replyText reply) (replyText reply) := by
  cases reply with
  | text s => exact .pure _
  | other v => exact .throw _

theorem follows_suggestName (name code : Text) :
    Follows R R B ((s.on a).suggestName name code) ((s.on b).suggestName name code) := by
  unfold suggestName
  refine (asks _).bind fun reply => ?_
  have trimmed : Follows R R B (Text.trim <$> replyText reply) (Text.trim <$> replyText reply) :=
    (follows_replyText reply).bind fun _ => .pure _
  exact .ite (trimmed.bind fun _ => .pure _) (.pure _)

theorem follows_summarize (path code : Text) :
    Follows R R B ((s.on a).summarize path code) ((s.on b).summarize path code) := by
  unfold summarize
  refine (asks _).bind fun reply => ?_
  exact .ite ((follows_replyText reply).bind fun _ => .pure _) (.pure _)

end Session

/-- Repairs that stand alike, though their lines to the service differ. -/
structure RepairState.Level (s t : RepairState) : Prop where
  history : s.history = t.history
  best : s.best = t.best
  report : s.report = t.report

/-- Repairs that stand alike, over lines that are related. -/
def RepairState.Over (R : Line → Line → Prop) (s t : RepairState) : Prop := s.Level t ∧ R s.line t.line

namespace Repairer
open RepairState
variable (r : Repairer)

/-- The repairer whose session has another service. -/
def on (r : Repairer) (service : Service) : Repairer := { r with session := r.session.on service }

omit asks in
theorem run_exhausted (s : RepairState) : exhausted.run.run s =
    (.ok s.best.1,{ s with report := { s.report with exhausted := true, remaining := s.best.2 } }) := rfl

omit asks in
/-- A replacement is asked for like any other conversion, and only its end is looked at. -/
theorem run_requestFix (lines : List Text) (place : Nat) (issue : Issue) (s : RepairState) :
    (r.requestFix lines place issue).run.run s =
      match (r.session.convert (instruction r.session.language.target) ((lines[place]?).getD [])
        (context lines place issue) (s.history.getD r.session.newHistory)).run.run s.line with
      | (.ok (code,history),line) =>
        (.ok (some code),{ s with
          line := line, history := s.history.map fun _ => history
          asked := (lines[place]?).getD [] :: s.asked })
      | (.error (.incomplete _ _),line) =>
        (.ok none,{ s with line := line, asked := (lines[place]?).getD [] :: s.asked })
      | (.error e,line) =>
        (.error e,{ s with line := line, asked := (lines[place]?).getD [] :: s.asked }) := by
  unfold requestFix
  rw [run_bind,run_get]
  dsimp only
  generalize (r.session.convert (instruction r.session.language.target) ((lines[place]?).getD [])
    (context lines place issue) (s.history.getD r.session.newHistory)).run.run s.line = answer
  obtain ⟨result,line⟩ := answer
  cases result with
  | ok found => rfl
  | error e => cases e <;> rfl

/-- Asking for a replacement breaks off where the conversation does. -/
theorem follows_requestFix (loud : ∀ n code line, ¬ B (.incomplete n code) line) (lines : List Text)
    (place : Nat) (issue : Issue) :
    Follows (Over R) (Over R) (fun e s => B e s.line) ((r.on a).requestFix lines place issue)
      ((r.on b).requestFix lines place issue) := by
  rintro s t ⟨level,related⟩
  rw [run_requestFix,run_requestFix,← level.history]
  generalize left : ((r.on a).session.convert (instruction (r.on a).session.language.target)
    ((lines[place]?).getD []) (context lines place issue)
    (s.history.getD (r.on a).session.newHistory)).run.run s.line = first
  generalize right : ((r.on b).session.convert (instruction (r.on b).session.language.target)
    ((lines[place]?).getD []) (context lines place issue)
    (s.history.getD (r.on b).session.newHistory)).run.run t.line = second
  have told : (first.1 = second.1 ∧ R first.2 second.2) ∨ ∃ e, first.1 = .error e ∧ B e first.2 := by
    rw [← left,← right]
    exact Session.follows_convert asks r.session _ _ _ _ s.line t.line related
  obtain ⟨result,line⟩ := first
  obtain ⟨result_,line_⟩ := second
  rcases told with ⟨same,after⟩ | ⟨e,same,broken⟩
  · cases same
    cases result with
    | ok found => exact .inl ⟨rfl,⟨rfl,level.best,level.report⟩,after⟩
    | error e => cases e <;> exact .inl ⟨rfl,⟨rfl,level.best,level.report⟩,after⟩
  · cases same
    cases e with
    | incomplete n code => exact absurd broken (loud n code line)
    | service why => exact .inr ⟨_,rfl,broken⟩
    | notText => exact .inr ⟨_,rfl,broken⟩

omit asks in
private theorem follows_report (g : RepairReport → RepairReport) :
    Follows (Over R) (Over R) (fun e s => B e s.line)
      (modify fun s => { s with report := g s.report } : Repairing PUnit)
      (modify fun s => { s with report := g s.report }) :=
  .modify fun _ _ ⟨level,related⟩ => ⟨⟨level.history,level.best,congrArg g level.report⟩,related⟩

omit asks in
theorem follows_check (p : Patch) :
    Follows (Over R) (Over R) (fun e s => B e s.line) ((r.on a).check p) ((r.on b).check p) := by
  have noted : Follows (Over R) (Over R) (fun e s => B e s.line)
      (modify fun s => { s with
        best := better s.best p.code (r.issues p.code), checked := p.code :: s.checked } : Repairing PUnit)
      (modify fun s => { s with
        best := better s.best p.code (r.issues p.code), checked := p.code :: s.checked }) := by
    refine .modify fun s t ⟨level,related⟩ => ⟨⟨level.history,?_,level.report⟩,related⟩
    dsimp only
    rw [level.best]
  exact noted.bind fun _ => .pure _

theorem follows_fix (loud : ∀ n code line, ¬ B (.incomplete n code) line) (p : Patch) (issue : Issue) :
    Follows (Over R) (Over R) (fun e s => B e s.line) ((r.on a).fix p issue) ((r.on b).fix p issue) := by
  unfold fix
  cases p.place? issue with
  | none => exact .pure _
  | some place =>
    refine (follows_report fun report => { report with attempts := report.attempts + 1 }).bind fun _ => ?_
    refine (follows_requestFix asks r loud p.lines place issue).bind fun found => ?_
    cases found with
    | none => exact .pure _
    | some replacement =>
      dsimp only
      cases p.substitute? place replacement with
      | none => exact .pure _
      | some p => exact (follows_check r p).bind fun _ => .pure _

theorem follows_pass (loud : ∀ n code line, ¬ B (.incomplete n code) line) (issues : List Issue)
    (p : Patch) :
    Follows (Over R) (Over R) (fun e s => B e s.line) ((r.on a).pass issues p) ((r.on b).pass issues p) := by
  induction issues generalizing p with
  | nil => exact .pure _
  | cons issue rest ih =>
    refine (follows_fix asks r loud p issue).bind fun found => ?_
    cases found with
    | none => exact ih _
    | some p => exact .ite (.pure _) (ih _)

theorem follows_passes (loud : ∀ n code line, ¬ B (.incomplete n code) line) (left depth : Nat)
    (code : Text) (issues : List Issue) :
    Follows (Over R) (Over R) (fun e s => B e s.line) ((r.on a).passes left depth code issues)
      ((r.on b).passes left depth code issues) := by
  have done (code : Text) : Follows (Over R) (Over R) (fun e s => B e s.line) (finished code)
      (finished code) :=
    (follows_report fun report => { report with remaining := [] }).bind fun _ => .pure _
  have gaveUp : Follows (Over R) (Over R) (fun e s => B e s.line) exhausted exhausted := by
    rintro s t ⟨⟨history,best,report⟩,related⟩
    rw [run_exhausted,run_exhausted,best,report]
    exact .inl ⟨rfl,⟨history,rfl,rfl⟩,related⟩
  have begun (depth : Nat) : Follows (Over R) (Over R) (fun e s => B e s.line)
      (modify fun s => { s with report := { s.report with depth := depth } } : Repairing PUnit)
      (modify fun s => { s with report := { s.report with depth := depth } }) :=
    follows_report fun report => { report with depth := depth }
  induction left generalizing depth code issues with
  | zero =>
    unfold passes
    exact (begun depth).bind fun _ => .ite (done _) gaveUp
  | succ left ih =>
    unfold passes
    refine (begun depth).bind fun _ => .ite (done _) ?_
    refine (follows_pass asks r loud _ _).bind fun p => ?_
    exact .ite gaveUp (.ite (done _) (ih _ _ _))

end Repairer

end

end Recast
