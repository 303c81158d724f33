import Recast.Proofs.Run.Steps

/-! One request to a service: how its answer ends the request, and what the commands that come with
it change. -/
namespace Recast

namespace Outcome

/-- How a request ends that has this outcome. -/
def result : Outcome → Except TalkError Reply
  | .reply r => .ok r
  | .failed why => .error (.service why)
  | .crashed why => .error (.service (Service.crashText why))

end Outcome

namespace Service

/-- The line once a request is answered. -/
def answered (service : Service) (request : Request) (line : Line) : Line where
  calls := line.calls ++ [request]
  control := line.control.obeyAll (service.answer line.calls request).commands

theorem run_ask (service : Service) (request : Request) (line : Line) :
    (service.ask request).run.run line =
      ((service.answer line.calls request).outcome.result,service.answered request line) := by
  change (match (service.answer line.calls request).outcome with
    | .reply r => (pure r : Talk Reply)
    | .failed why => throw (TalkError.service why)
    | .crashed why => throw (TalkError.service (crashText why))).run.run (service.answered request line) = _
  cases (service.answer line.calls request).outcome <;> rfl

/-- The service never has the run cancelled. -/
def GoesOn (service : Service) : Prop :=
  ∀ past request, Command.cancel ∉ (service.answer past request).commands

end Service

theorem Control.obeyAll_cancelled {commands : List Command} (goesOn : Command.cancel ∉ commands)
    (control : Control) : (control.obeyAll commands).cancelled = control.cancelled := by
  unfold obeyAll
  induction commands generalizing control with
  | nil => rfl
  | cons command rest ih =>
    have kept : (control.obey command).cancelled = control.cancelled := by
      cases command with
      | pause => rfl
      | resume => rfl
      | cancel => exact absurd (by simp) goesOn
    rw [List.foldl_cons,ih fun later => goesOn (by simp [later]),kept]

/-- No cancellation was asked for. -/
def Line.Running (line : Line) : Prop := line.control.cancelled = false

theorem Line.Running.answered {service : Service} {line : Line} (running : line.Running)
    (goesOn : service.GoesOn) (request : Request) : (service.answered request line).Running := by
  unfold Running Service.answered
  rw [Control.obeyAll_cancelled (goesOn line.calls request)]
  exact running

namespace Talk
variable {α β : Type} {asked : Request → Prop} {allowed : TalkError → Prop}

/-- From every line on the conversation makes requests of one kind only, and ends with a value of a
kind or with an error of a kind. -/
def Asks (asked : Request → Prop) (m : Talk α) (good : α → Prop) (allowed : TalkError → Prop) : Prop :=
  ∀ line, ∃ more, (m.run.run line).2.calls = line.calls ++ more ∧ (∀ r ∈ more, asked r) ∧
    match (m.run.run line).1 with
    | .ok a => good a
    | .error e => allowed e

theorem Asks.pure {good : α → Prop} {a : α} (h : good a) : Asks asked (pure a : Talk α) good allowed :=
  fun line => ⟨[],(List.append_nil _).symm,by simp,h⟩

theorem Asks.throw {good : α → Prop} {e : TalkError} (h : allowed e) :
    Asks asked (throw e : Talk α) good allowed :=
  fun line => ⟨[],(List.append_nil _).symm,by simp,h⟩

theorem Asks.bind {middle : α → Prop} {good : β → Prop} {m : Talk α} {f : α → Talk β}
    (first : Asks asked m middle allowed) (next : ∀ a, middle a → Asks asked (f a) good allowed) :
    Asks asked (m >>= f) good allowed := by
  intro line
  obtain ⟨more,calls,kinds,ends⟩ := first line
  rw [Steps.run_bind]
  cases same : m.run.run line with
  | mk r between =>
    rw [same] at calls ends
    cases r with
    | error e => exact ⟨more,calls,kinds,ends⟩
    | ok a =>
      obtain ⟨rest,later,others,result⟩ := next a ends between
      refine ⟨more ++ rest,?_,fun r member => ?_,result⟩
      · rw [later,calls,List.append_assoc]
      · rcases List.mem_append.1 member with early | late
        · exact kinds r early
        · exact others r late

theorem Asks.mono {good better : α → Prop} {wider : TalkError → Prop} {m : Talk α}
    (asks : Asks asked m good allowed) (values : ∀ a, good a → better a)
    (errors : ∀ e, allowed e → wider e) : Asks asked m better wider := by
  intro line
  obtain ⟨more,calls,kinds,ends⟩ := asks line
  refine ⟨more,calls,kinds,?_⟩
  cases same : (m.run.run line).1 with
  | ok a =>
    rw [same] at ends
    exact values a ends
  | error e =>
    rw [same] at ends
    exact errors e ends

end Talk

/-- A request that the service answers with a text of a kind. -/
theorem Service.asks_ask {service : Service} {request : Request} {asked : Request → Prop}
    {allowed : TalkError → Prop} {Sent : Text → Prop} (kind : asked request)
    (sends : ∀ past, ∃ t, (service.answer past request).outcome = .reply (.text t) ∧ Sent t) :
    Talk.Asks asked (service.ask request) (fun r => ∃ t, r = .text t ∧ Sent t) allowed := by
  intro line
  obtain ⟨t,outcome,sent⟩ := sends line.calls
  rw [run_ask,outcome]
  exact ⟨[request],rfl,by simpa using kind,t,rfl,sent⟩

end Recast
