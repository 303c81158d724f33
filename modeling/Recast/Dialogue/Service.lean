import Recast.Dialogue.History
import Recast.Envelope.Answer

/-!
Generation services and the line to them. A service answers a request in the light of all requests
before it; while it answers, a run may be paused, resumed or cancelled.
-/

namespace Recast

inductive Command where
  | pause
  | resume
  | cancel
  deriving DecidableEq

namespace Command

def ofName? (s : Text) : Option Command :=
  if s = "pause".toList then some .pause
  else if s = "resume".toList then some .resume
  else if s = "cancel".toList then some .cancel
  else none

end Command

/-- Requests to a run that it looks at between two pieces of work. -/
structure Control where
  paused : Bool := false
  cancelled : Bool := false
  deriving DecidableEq

namespace Control

def obey (c : Control) : Command → Control
  | .pause => { c with paused := true }
  | .resume => { c with paused := false }
  | .cancel => { c with cancelled := true }

def obeyAll (c : Control) (commands : List Command) : Control := commands.foldl obey c

end Control

structure Request where
  maxTokens : Nat
  messages : List Message
  deriving DecidableEq

/-- How a request ends: with a reply, with a failure that the service reports, or with another
fault. -/
inductive Outcome where
  | reply (r : Reply)
  | failed (why : Text)
  | crashed (why : Text)

/-- The commands given while a request was answered, and how it ended. -/
structure Answer where
  commands : List Command := []
  outcome : Outcome

structure Service where
  answer : List Request → Request → Answer
  reachable : Outcome

/-- The requests made so far, and the commands that came back. -/
structure Line where
  calls : List Request := []
  control : Control := {}
  deriving DecidableEq

inductive TalkError where
  | service (why : Text)
  | incomplete (attempts : Nat) (partialCode : Text)
  | notText
  deriving DecidableEq

namespace TalkError

def message : TalkError → Text
  | .service why => why
  | .incomplete attempts _ =>
    "No complete translation after " ++ Numeral.ofNat attempts ++ " attempt(s)"
  | .notText => "the reply is no text"

end TalkError

abbrev Talk := ExceptT TalkError (StateM Line)

namespace Service

def crashText (why : Text) : Text := "Generation service failed: " ++ why

/-- Sends one request. -/
def ask (service : Service) (request : Request) : Talk Reply := do
  let line ← get
  let answer := service.answer line.calls request
  set ({ calls := line.calls ++ [request], control := line.control.obeyAll answer.commands } : Line)
  match answer.outcome with
  | .reply r => return r
  | .failed why => throw (.service why)
  | .crashed why => throw (.service (crashText why))

/-- Why a service cannot be reached, if it cannot. -/
def probe (service : Service) : Except Text Unit :=
  match service.reachable with
  | .failed why => .error why
  | .crashed why => .error ("Connection check failed: " ++ why)
  | .reply (.text s) => if s.isEmpty then .error "Generation service is not reachable" else .ok ()
  | .reply (.other v) => if v.truthy then .ok () else .error "Generation service is not reachable"

end Service

end Recast
