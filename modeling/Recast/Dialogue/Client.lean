import Recast.Dialogue.History
import Recast.Settings.Basic

/-!
Clients of generation services. A hosted service is asked over the chat interface that the
providers share, a local one over its own; a client says what it sends and reads what comes back.
-/

namespace Recast

/-- Which interface a client speaks; the shared one needs a key and may need an address. -/
inductive Interface where
  | hosted (key : Text) (url : Option Text)
  | localHost
  deriving DecidableEq

structure Client where
  settings : ServiceSettings
  interface : Interface

inductive ClientError where
  | service (why : Text)
  | missingEntry
  | wrongType
  | noSuchPart
  deriving DecidableEq

/-- What a client sends. -/
inductive ClientCall where
  | chat (messages : List Value) (maxTokens : Nat)
  | listModels

/-- What comes back: an exception, or a value. -/
inductive Received where
  | raised (why : Text)
  | value (v : Value)

namespace Client

def keyMissing (p : Provider) : Text :=
  "API key required for provider '" ++ p.name ++
    "' (set llm.api_key or the provider's environment variable)"

/-- An address of the settings comes before the provider's own. -/
def address? (s : ServiceSettings) : Option Text :=
  match s.url with
  | some url => if url.isEmpty then own else some url
  | none => own
where
  own : Option Text := match s.provider with
    | .openrouter => some "https://openrouter.ai/api/v1"
    | .claude => some "https://api.anthropic.com/v1/"
    | _ => none

def present (s : Option Text) : Option Text := s.filter fun t => !t.isEmpty

def ofSettings (s : ServiceSettings) : Except Text Client :=
  match s.provider with
  | .ollama => .ok ⟨s, .localHost⟩
  | .custom =>
    if (present s.url).isNone then .error "api_url is required for the custom provider"
    else .ok ⟨s, .hosted ((present s.key).getD "not-needed") (address? s)⟩
  | p =>
    match present s.key with
    | some key => .ok ⟨s, .hosted key (address? s)⟩
    | none => .error (keyMissing p)

/-- How the connection is set up. -/
def connection (c : Client) : Value :=
  match c.interface with
  | .hosted key url =>
    .record ([("api_key", .text key), ("timeout", .int c.settings.timeout)] ++
      (url.map fun u => ("base_url", Value.text u)).toList)
  | .localHost => .record [("host", .text c.settings.host), ("timeout", .int c.settings.timeout)]

/-- The arguments of a call. -/
def arguments (c : Client) : ClientCall → Value
  | .listModels => .record []
  | .chat messages maxTokens =>
    let shared : List (String × Value) :=
      [("model", .text c.settings.model), ("messages", .list messages)]
    let temperature := Value.float c.settings.temperature
    let more : List (String × Value) := match c.interface with
      | .hosted _ _ => [("temperature", temperature), ("max_tokens", .int maxTokens)]
      | .localHost =>
        [("options", .record [("temperature", temperature), ("num_predict", .int maxTokens)])]
    .record (shared ++ more)

def entry (v : Value) (name : Text) : Except ClientError Value :=
  match v with
  | .dict es => match Value.lookup? es name with
    | some v => .ok v
    | none => .error .missingEntry
  | _ => .error .wrongType

def orEmpty (v : Value) : Value := if v.truthy then v else .text []

def callFailed (why : Text) : ClientError := .service ("LLM API call failed: " ++ why)

/-- The text of the first choice. -/
def firstChoice (v : Value) : Except ClientError Value :=
  match v.get? "choices" with
  | some (.list (content :: _)) =>
    match orEmpty content with
    | .int _ | .float _ | .bool _ => .error .wrongType
    | content => .ok content
  | _ => .error (.service "LLM API returned no choices")

def readChat (c : Client) : Received → Except ClientError Value
  | .raised why => .error (callFailed why)
  | .value v =>
    match c.interface with
    | .hosted _ _ => firstChoice v
    | .localHost => do return orEmpty (← entry (← entry v "message") "content")

def readModels : Received → Except ClientError (List Value)
  | .raised why => .error (.service ("Failed to list models: " ++ why))
  | .value v =>
    match v with
    | .dict es =>
      match (Value.lookup? es "models").getD (.list []) with
      | .list models => models.mapM fun m => entry m "model"
      | _ => .error .wrongType
    | _ => .error .noSuchPart

/-- A probe asks for one word, or looks the model up among those that are there. -/
def probe (c : Client) : ClientCall :=
  match c.interface with
  | .hosted _ _ =>
    .chat [Message.toValue ⟨.user, "Reply with the single word OK."⟩] 5
  | .localHost => .listModels

/-- A model's name without its tag. -/
def family (model : Text) : Text := model.takeWhile (· ≠ ':')

def anyFamily (wanted : Text) : List Value → Except ClientError Bool
  | [] => .ok false
  | .text name :: rest => if family name = family wanted then .ok true else anyFamily wanted rest
  | _ :: _ => .error .noSuchPart

def readProbe (c : Client) (r : Received) : Except ClientError Bool :=
  match c.interface with
  | .hosted _ _ => match c.readChat r with
    | .ok _ => .ok true
    | .error (.service _) => .ok false
    | .error e => .error e
  | .localHost => match readModels r with
    | .ok models => anyFamily c.settings.model models
    | .error (.service _) => .ok false
    | .error e => .error e

end Client

end Recast
