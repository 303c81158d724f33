import Recast.Dialogue.Session
import Recast.Proofs.Dialogue.Service

/-! The ways in which a conversation can fail: the service fails, or no exchange comes to an end.
Replies that are no texts are a third way; here the service sends texts. -/
namespace Recast

/-- The service answers with texts, where it answers. -/
def Service.SendsTexts (service : Service) : Prop :=
  ∀ past request v, (service.answer past request).outcome ≠ .reply (.other v)

namespace TalkError

/-- The service failed. -/
def Failed (e : TalkError) : Prop := ∃ why, e = .service why

/-- The service failed, or no exchange came to an end. -/
def Ended (e : TalkError) : Prop := e.Failed ∨ ∃ attempts code, e = .incomplete attempts code

end TalkError

section
open Steps
variable {service : Service}

theorem Service.obeys_ask (request : Request) :
    Obeys (service.ask request) (fun _ => True) TalkError.Failed := by
  intro line
  rw [run_ask]
  cases (service.answer line.calls request).outcome with
  | reply r => trivial
  | failed why => exact ⟨_,rfl⟩
  | crashed why => exact ⟨_,rfl⟩

/-- The service never fails. -/
def Service.Replies (service : Service) : Prop :=
  ∀ past request, ∃ reply, (service.answer past request).outcome = .reply reply

theorem Service.Replies.obeys_ask (replies : service.Replies) (request : Request) :
    Obeys (service.ask request) (fun _ => True) fun _ => False := by
  intro line
  obtain ⟨reply,told⟩ := replies line.calls request
  rw [run_ask,told]
  trivial

theorem Service.SendsTexts.obeys_ask (sends : service.SendsTexts) (request : Request) :
    Obeys (service.ask request) (fun reply => ∃ s, reply = .text s) TalkError.Failed := by
  intro line
  rw [run_ask]
  cases told : (service.answer line.calls request).outcome with
  | reply r =>
    cases r with
    | text s => exact ⟨s,rfl⟩
    | other v => exact absurd told (sends line.calls request v)
  | failed why => exact ⟨_,rfl⟩
  | crashed why => exact ⟨_,rfl⟩

end

namespace Session
open Steps
variable (s : Session)

section
variable {allowed : TalkError → Prop}
  (asks : ∀ request, Obeys (s.service.ask request) (fun _ => True) allowed)
include asks

theorem obeys_goOn (messages : List Message) (n : Nat) (code : Text) :
    Obeys (s.goOn messages n code) (fun _ => True) allowed := by
  induction n generalizing code with
  | zero => exact .pure trivial
  | succ n ih =>
    unfold goOn
    refine (asks _).bind fun reply _ => ?_
    dsimp only
    split
    · exact .pure trivial
    · split
      · exact .pure trivial
      · exact ih _

theorem obeys_exchange (base : List Message) (request : Text) :
    Obeys (s.exchange base request) (fun _ => True) allowed := by
  unfold exchange
  refine (asks _).bind fun reply _ => ?_
  split
  · exact .pure trivial
  · split
    · exact .pure trivial
    · exact s.obeys_goOn asks _ _ _

theorem obeys_attempts (base : List Message) (request : Text) (n : Nat) (first : Bool) (code : Text) :
    Obeys (s.attempts base request n first code) (fun _ => True)
      fun e => allowed e ∨ ∃ attempts code, e = .incomplete attempts code := by
  have once (asked : Text) : Obeys (s.exchange base asked) (fun _ => True)
      fun e => allowed e ∨ ∃ attempts code, e = .incomplete attempts code :=
    (s.obeys_exchange asks base asked).mono (fun _ h => h) fun _ => .inl
  induction n generalizing first code with
  | zero =>
    unfold attempts
    refine (once _).bind fun (found,complete) _ => ?_
    dsimp only
    split
    · exact .pure trivial
    · exact .throw (.inr ⟨_,_,rfl⟩)
  | succ n ih =>
    unfold attempts
    refine (once _).bind fun (found,complete) _ => ?_
    dsimp only
    split
    · exact .pure trivial
    · exact ih _ _

/-- A conversion ends with an error of the service, or because no exchange comes to an end. -/
theorem ends_convert (prompt chunk context : Text) (history : History) :
    Obeys (s.convert prompt chunk context history) (fun _ => True)
      fun e => allowed e ∨ ∃ attempts code, e = .incomplete attempts code := by
  unfold convert
  split
  · exact .pure trivial
  · exact (s.obeys_attempts asks _ _ _ _ _).bind fun _ _ => .pure trivial

theorem obeys_confirm (question context : Text) (history : History) :
    Obeys (s.confirm question context history) (fun _ => True) allowed := by
  unfold confirm
  exact (asks _).bind fun _ _ => .pure trivial

end

theorem obeys_convert (prompt chunk context : Text) (history : History) :
    Obeys (s.convert prompt chunk context history) (fun _ => True) TalkError.Ended :=
  s.ends_convert Service.obeys_ask prompt chunk context history

variable {s}

theorem obeys_suggestName (sends : s.service.SendsTexts) (name code : Text) :
    Obeys (s.suggestName name code) (fun _ => True) TalkError.Failed := by
  unfold suggestName
  refine (sends.obeys_ask _).bind fun reply ⟨text,same⟩ => ?_
  subst same
  have found (inner : Text) : Obeys (pure inner : Talk Text) (fun _ => True) TalkError.Failed :=
    .pure trivial
  dsimp only
  split
  · exact (found _).bind fun _ _ => .pure trivial
  · exact (found _).bind fun _ _ => .pure trivial

theorem obeys_summarize (sends : s.service.SendsTexts) (path code : Text) :
    Obeys (s.summarize path code) (fun _ => True) TalkError.Failed := by
  unfold summarize
  refine (sends.obeys_ask _).bind fun reply ⟨text,same⟩ => ?_
  subst same
  have found (inner : Text) : Obeys (pure inner : Talk Text) (fun _ => True) TalkError.Failed :=
    .pure trivial
  dsimp only
  split
  · exact (found _).bind fun _ _ => .pure trivial
  · exact (found _).bind fun _ _ => .pure trivial

end Session

end Recast
