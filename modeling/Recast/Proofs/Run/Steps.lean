import Recast.Run.File

/-! Steps that may fail, as functions on a state. What holds before the first step and is kept by
each of them holds at the end; `Gives` says so of steps that do not fail. -/
namespace Recast

theorem ok_of_bind {ε α β : Type} {m : Except ε α} {f : α → Except ε β} {b : β}
    (same : m >>= f = .ok b) : ∃ a, m = .ok a ∧ f a = .ok b := by
  cases m with
  | error e => cases same
  | ok a => exact ⟨a,rfl,same⟩

theorem ok_of_mapError {ε δ α : Type} {m : Except ε α} {f : ε → δ} {a : α}
    (same : m.mapError f = .ok a) : m = .ok a := by
  cases m with
  | error e => cases same
  | ok b =>
    cases same
    rfl

/-- Steps on a state; a step that fails leaves the state as it is then. -/
abbrev Steps (ε σ : Type) := ExceptT ε (StateM σ)

namespace Steps
variable {ε σ α β : Type}

theorem run_bind (m : Steps ε σ α) (f : α → Steps ε σ β) (s : σ) :
    (m >>= f).run.run s = match m.run.run s with
      | (.ok a,t) => (f a).run.run t
      | (.error e,t) => (.error e,t) := by
  change (match (m.run.run s).1 with | .ok a => _ | .error e => _ : StateM σ _) (m.run.run s).2 = _
  cases m.run.run s with
  | mk r t => cases r <;> rfl

/-- Steps that succeed one after the other. -/
theorem ok_of_run_bind {m : Steps ε σ α} {f : α → Steps ε σ β} {s u : σ} {b : β}
    (ran : (m >>= f).run.run s = (.ok b,u)) :
    ∃ a t, m.run.run s = (.ok a,t) ∧ (f a).run.run t = (.ok b,u) := by
  rw [run_bind] at ran
  cases first : m.run.run s with
  | mk r t =>
    rw [first] at ran
    cases r with
    | ok a => exact ⟨a,t,rfl,ran⟩
    | error e => cases ran

theorem run_pure (a : α) (s : σ) : (pure a : Steps ε σ α).run.run s = (.ok a,s) := rfl

theorem run_get (s : σ) : (get : Steps ε σ σ).run.run s = (.ok s,s) := rfl

theorem run_set (s t : σ) : (set t : Steps ε σ PUnit).run.run s = (.ok ⟨⟩,t) := rfl

theorem run_modify (f : σ → σ) (s : σ) : (modify f : Steps ε σ PUnit).run.run s = (.ok ⟨⟩,f s) := rfl

theorem run_map (f : α → β) (m : Steps ε σ α) (s : σ) :
    (f <$> m).run.run s = ((m.run.run s).1.map f,(m.run.run s).2) := by
  change (match (m.run.run s).1 with | .ok a => _ | .error e => _ : StateM σ _) (m.run.run s).2 = _
  cases m.run.run s with
  | mk r t => cases r <;> rfl

theorem run_tryCatch (m : Steps ε σ α) (handle : ε → Steps ε σ α) (s : σ) :
    (tryCatch m handle).run.run s = match m.run.run s with
      | (.ok a,t) => (.ok a,t)
      | (.error e,t) => (handle e).run.run t := by
  change (match (m.run.run s).1 with | .ok a => _ | .error e => _ : StateM σ _) (m.run.run s).2 = _
  cases m.run.run s with
  | mk r t => cases r <;> rfl

/-- From a state of a kind the steps give a value of a kind, and the state stays of its kind. -/
def Gives (kept : σ → Prop) (m : Steps ε σ α) (good : α → Prop) : Prop :=
  ∀ s, kept s → ∃ a t, m.run.run s = (.ok a,t) ∧ good a ∧ kept t

theorem Gives.pure {kept : σ → Prop} {good : α → Prop} {a : α} (h : good a) :
    Gives kept (pure a : Steps ε σ α) good :=
  fun s before => ⟨a,s,rfl,h,before⟩

theorem Gives.bind {kept : σ → Prop} {middle : α → Prop} {good : β → Prop} {m : Steps ε σ α}
    {f : α → Steps ε σ β} (first : Gives kept m middle)
    (next : ∀ a, middle a → Gives kept (f a) good) : Gives kept (m >>= f) good := by
  intro s before
  obtain ⟨a,t,same,fine,between⟩ := first s before
  obtain ⟨b,u,ends,right,after⟩ := next a fine t between
  exact ⟨b,u,by rw [run_bind,same]; exact ends,right,after⟩

theorem Gives.modify {kept : σ → Prop} {f : σ → σ} (h : ∀ s, kept s → kept (f s)) :
    Gives kept (modify f : Steps ε σ PUnit) fun _ => True :=
  fun s before => ⟨⟨⟩,f s,rfl,trivial,h s before⟩

/-- However the steps end, the state before them is related to the one after them. -/
def Relates (R : σ → σ → Prop) (m : Steps ε σ α) : Prop := ∀ s, R s (m.run.run s).2

section
variable {R : σ → σ → Prop} {m : Steps ε σ α}

theorem Relates.ran (relates : Relates R m) {s t : σ} {r : Except ε α} (same : m.run.run s = (r,t)) :
    R s t := by
  have related := relates s
  rwa [same] at related

theorem Relates.bind {f : α → Steps ε σ β} (trans : ∀ {s t u}, R s t → R t u → R s u)
    (first : Relates R m) (next : ∀ a, Relates R (f a)) : Relates R (m >>= f) := by
  intro s
  rw [run_bind]
  cases same : m.run.run s with
  | mk r t =>
    cases r with
    | ok a => exact trans (first.ran same) (next a t)
    | error e => exact first.ran same

end

/-- From every state the steps give a value of a kind or end with an error of a kind. -/
def Obeys (m : Steps ε σ α) (good : α → Prop) (allowed : ε → Prop) : Prop :=
  ∀ s, match (m.run.run s).1 with
    | .ok a => good a
    | .error e => allowed e

theorem Obeys.ok {m : Steps ε σ α} {good : α → Prop} {allowed : ε → Prop}
    (obeys : Obeys m good allowed) {s t : σ} {a : α} (same : m.run.run s = (.ok a,t)) : good a := by
  have told := obeys s
  rwa [same] at told

theorem Obeys.error {m : Steps ε σ α} {good : α → Prop} {allowed : ε → Prop}
    (obeys : Obeys m good allowed) {s t : σ} {e : ε} (same : m.run.run s = (.error e,t)) :
    allowed e := by
  have told := obeys s
  rwa [same] at told

/-- Steps that allow no error end with a value. -/
theorem Obeys.ends {m : Steps ε σ α} {good : α → Prop} (obeys : Obeys m good fun _ => False) (s : σ) :
    ∃ a, (m.run.run s).1 = .ok a := by
  have told := obeys s
  cases same : (m.run.run s).1 with
  | ok a => exact ⟨a,rfl⟩
  | error e =>
    rw [same] at told
    exact told.elim

theorem Obeys.any (m : Steps ε σ α) : Obeys m (fun _ => True) fun _ => True := by
  intro s
  split <;> trivial

theorem Obeys.pure {good : α → Prop} {allowed : ε → Prop} {a : α} (h : good a) :
    Obeys (pure a : Steps ε σ α) good allowed := fun _ => h

theorem Obeys.throw {good : α → Prop} {allowed : ε → Prop} {e : ε} (h : allowed e) :
    Obeys (throw e : Steps ε σ α) good allowed := fun _ => h

theorem Obeys.get {allowed : ε → Prop} :
    Obeys (get : Steps ε σ σ) (fun _ => True) allowed := fun _ => trivial

theorem Obeys.set {allowed : ε → Prop} (s : σ) :
    Obeys (set s : Steps ε σ PUnit) (fun _ => True) allowed := fun _ => trivial

theorem Obeys.modify {allowed : ε → Prop} (f : σ → σ) :
    Obeys (modify f : Steps ε σ PUnit) (fun _ => True) allowed := fun _ => trivial

theorem Obeys.bind {middle : α → Prop} {good : β → Prop} {allowed : ε → Prop} {m : Steps ε σ α}
    {f : α → Steps ε σ β} (first : Obeys m middle allowed)
    (next : ∀ a, middle a → Obeys (f a) good allowed) : Obeys (m >>= f) good allowed := by
  intro s
  rw [run_bind]
  cases same : m.run.run s with
  | mk r t =>
    cases r with
    | ok a => exact next a (first.ok same) t
    | error e => exact first.error same

theorem Obeys.map {middle : α → Prop} {good : β → Prop} {allowed : ε → Prop} {m : Steps ε σ α}
    {f : α → β} (obeys : Obeys m middle allowed) (h : ∀ a, middle a → good (f a)) :
    Obeys (f <$> m) good allowed := by
  intro s
  rw [run_map]
  cases same : m.run.run s with
  | mk r t =>
    cases r with
    | ok a => exact h a (obeys.ok same)
    | error e => exact obeys.error same

theorem Obeys.tryCatch {good : α → Prop} {allowed wider : ε → Prop} {m : Steps ε σ α}
    {handle : ε → Steps ε σ α} (obeys : Obeys m good allowed)
    (handled : ∀ e, allowed e → Obeys (handle e) good wider) :
    Obeys (tryCatch m handle) good wider := by
  intro s
  rw [run_tryCatch]
  cases same : m.run.run s with
  | mk r t =>
    cases r with
    | ok a => exact obeys.ok same
    | error e => exact handled e (obeys.error same) t

theorem Obeys.mono {good better : α → Prop} {allowed wider : ε → Prop} {m : Steps ε σ α}
    (obeys : Obeys m good allowed) (values : ∀ a, good a → better a)
    (errors : ∀ e, allowed e → wider e) : Obeys m better wider := by
  intro s
  cases same : m.run.run s with
  | mk r t =>
    cases r with
    | ok a => exact values a (obeys.ok same)
    | error e => exact errors e (obeys.error same)

theorem Obeys.and {good better : α → Prop} {allowed wider : ε → Prop} {m : Steps ε σ α}
    (first : Obeys m good allowed) (second : Obeys m better wider) :
    Obeys m (fun a => good a ∧ better a) fun e => allowed e ∧ wider e := by
  intro s
  cases same : m.run.run s with
  | mk r t =>
    cases r with
    | ok a => exact ⟨first.ok same,second.ok same⟩
    | error e => exact ⟨first.error same,second.error same⟩

end Steps

namespace Run
variable {α : Type}

theorem run_observe (step : Run α) (w : World) :
    (observe step).run.run w = (.ok (step.run.run w).1,(step.run.run w).2) := rfl

theorem run_note (d : Deed) (w : World) :
    (note d).run.run w = (.ok ⟨⟩,{ w with deeds := d :: w.deeds }) := rfl

theorem run_talk (talked : Talk α) (w : World) :
    (talk talked).run.run w = ((talked.run.run w.line).1.mapError .talk,
      { w with line := (talked.run.run w.line).2 }) := rfl

theorem run_files (change : Tree → Except FileFault Tree) (w : World) :
    (files change).run.run w = match change w.tree with
      | .ok t => (.ok (),{ w with tree := t })
      | .error fault => (.error (.file fault),w) := by
  unfold files
  rw [Steps.run_bind,Steps.run_get]
  dsimp only
  cases change w.tree with
  | ok t => rfl
  | error fault => rfl

/-- At the point where a run can be stopped it tells that it is paused and goes on, and waits between
the two. -/
theorem relates_poll {R : World → World → Prop} {watches : List Watch} (refl : ∀ w, R w w)
    (trans : ∀ {u v w}, R u v → R v w → R u w)
    (told : ∀ (e : Event) w, e.kind = .paused ∨ e.kind = .resumed → R w (w.publish watches e))
    (steered : ∀ w control, R w { w with line := { w.line with control := control } }) :
    Steps.Relates R (poll watches) := by
  have tells (e : Event) (kind : e.kind = .paused ∨ e.kind = .resumed) :
      Steps.Relates R (emit watches e) := fun w => told e w kind
  have waits : Steps.Relates R wait := by
    intro w
    change R w w.unpause
    unfold World.unpause
    split
    · exact refl w
    · exact steered w _
  have looks : Steps.Relates R control := refl
  have ends : Steps.Relates R (do if (← control).cancelled then throw .cancelled : Run Unit) := by
    refine looks.bind trans fun now => ?_
    split
    · exact refl
    · exact refl
  unfold poll
  refine looks.bind trans fun now => ?_
  dsimp only
  split
  · refine (tells _ (.inl rfl)).bind trans fun _ => waits.bind trans fun _ =>
      looks.bind trans fun later => ?_
    split
    · exact (tells _ (.inr rfl)).bind trans fun _ => ends
    · exact ends
  · exact ends

end Run

/-- A repair changes the line and nothing else. -/
theorem Converter.run_repairOnce (c : Converter) (code : Text) (issues : List Issue)
    (history : History) (w : World) :
    (c.repairOnce code issues history).run.run w =
      ((c.repairer.repair code issues (some history) w.line).1.mapError .talk,
        { w with line := (c.repairer.repair code issues (some history) w.line).2.line }) := rfl

end Recast
