import Recast.Dialogue.Service
import Recast.Source.Balance
import Recast.Target.Naming

/-!
A session turns a piece of source text into requests and collects the code of the answers. An
answer that was cut off is continued from its last closed block, and an exchange that does not
come to an end is started anew, both as often as the settings allow.
-/

namespace Recast

structure Session where
  service : Service
  language : LanguageSettings
  run : RunSettings
  maxTokens : Nat := 4096

namespace Session

variable (s : Session)

def systemPrompt : Text :=
  let opening := s.language.tags.opening
  let closing := s.language.tags.closing
  "You are an expert software engineer translating source code to " ++ s.language.target ++ ".\n" ++
    "Always answer in this exact format:\n" ++
    "<response>" ++ opening ++ "TRANSLATED CODE" ++ closing ++
    "<rationale>optional short notes</rationale></response>\n" ++
    "Put only " ++ s.language.target ++ " code inside " ++ opening ++ "..." ++ closing ++ ". " ++
    "Do not use markdown code fences. Keep any @@BODY_n@@ or @@FILE path@@ " ++
    "marker lines exactly as they appear."

/-- A history that holds the system prompt. -/
def newHistory : History :=
  (History.empty (max s.run.maxHistory 1)).append ⟨.system, s.systemPrompt⟩

def codeHeading : Text := "Code to translate:\n"

def contextPart (context : Text) : Text :=
  if context.isEmpty then []
  else "Context (for reference only, do not translate it):\n" ++ context ++ "\n\n"

def request (prompt chunk context : Text) : Text :=
  Text.trim prompt ++ "\n\n" ++ contextPart context ++ codeHeading ++ chunk

def continuationRequest (code : Text) : Text :=
  "Your previous answer was cut off. This is the code produced so far:\n" ++
    s.language.tags.opening ++ code ++ "\n\n" ++
    "Continue the translation immediately after the last character above. " ++
    "Do not repeat anything already written. " ++
    "Finish with " ++ s.language.tags.closing ++ "."

def redoRequest (request : Text) : Text :=
  "Your previous attempt was incomplete. Discard all partial progress and " ++
    "start over, translating the whole code again in a single complete " ++
    "answer.\n\n" ++ request

def ask (messages : List Message) : Talk Reply := s.service.ask ⟨s.maxTokens, messages⟩

def followUp (code : Text) : List Message :=
  [⟨.assistant, s.language.tags.opening ++ code⟩, ⟨.user, s.continuationRequest code⟩]

/-- Asks to go on until the code is complete, nothing new comes, or the bound is reached. -/
def goOn (messages : List Message) : Nat → Text → Talk (Text × Bool)
  | 0, code => return (code, false)
  | n + 1, code => do
    let kept := s.language.symbols.truncate code
    let reply ← s.ask (messages ++ s.followUp kept)
    let (fragment, complete) := reply.continuation s.language.tags
    if complete then return (kept ++ fragment, true)
    else if Text.blank fragment then return (kept, false)
    else goOn messages n (kept ++ fragment)

/-- One request with its continuations: the code so far, and whether it is complete. -/
def exchange (base : List Message) (request : Text) : Talk (Text × Bool) := do
  let messages := base ++ [⟨.user, request⟩]
  let reply ← s.ask messages
  if !reply.hasCode s.language.tags then return ([], false)
  else if reply.isComplete s.language.tags then return (reply.code s.language.tags, true)
  else s.goOn messages s.run.maxContinuations (reply.code s.language.tags)

/-- The code of the newest exchange that brought any. -/
def latest (code found : Text) : Text := if found.isEmpty then code else found

/-- Exchanges until one is complete; the number says how many may follow the next one. -/
def attempts (base : List Message) (request : Text) : Nat → Bool → Text → Talk Text
  | 0, first, code => do
    let (found, complete) ← s.exchange base (if first then request else redoRequest request)
    if complete then return found
    else throw (.incomplete (s.run.maxRedos + 1) (latest code found))
  | n + 1, first, code => do
    let (found, complete) ← s.exchange base (if first then request else redoRequest request)
    if complete then return found else attempts base request n false (latest code found)

/-- Converts one piece of text; only a complete exchange enters the history, under its first
request. -/
def convert (prompt chunk context : Text) (history : History) : Talk (Text × History) :=
  if Text.blank chunk then return (chunk, history)
  else do
    let request := request prompt chunk context
    let code ← s.attempts history.messages request s.run.maxRedos true []
    let answer := s.language.tags.opening ++ code ++ s.language.tags.closing
    return (code, (history.append ⟨.user, request⟩).append ⟨.assistant, answer⟩)

/-- A yes or no question; an unclear answer counts as yes. -/
def confirm (question context : Text) (history : History) : Talk Bool := do
  let request := question ++ "\n\n" ++ context ++ "\n\n" ++
    "Answer with a single word, yes or no, inside " ++
    s.language.tags.opening ++ s.language.tags.closing ++ "."
  let base := if history.messages.isEmpty then s.newHistory else history
  let reply ← s.ask (base.messages ++ [⟨.user, request⟩])
  return (reply.yesNo? s.language.tags).getD true

def replyText : Reply → Talk Text
  | .text s => return s
  | .other _ => throw .notText

/-- A new name for a type; what is no identifier leaves the old one. -/
def suggestName (name code : Text) : Talk Text := do
  let request := "Suggest an idiomatic " ++ s.language.target ++ " name for the main type " ++
    "currently called '" ++ name ++ "' in the code below. Reply with the bare " ++
    "identifier inside " ++ s.language.tags.opening ++ s.language.tags.closing ++ ".\n\n" ++ code
  let reply ← s.ask (s.newHistory.messages ++ [⟨.user, request⟩])
  let inner := Text.trim (reply.code s.language.tags)
  let candidate ← if inner.isEmpty then Text.trim <$> replyText reply else pure inner
  return if Naming.isIdentifier candidate then candidate else name

/-- A short description of what a file offers. -/
def summarize (path code : Text) : Talk Text := do
  let request := "Summarize the public types and functions of " ++ path ++ " in a few lines, " ++
    "inside " ++ s.language.tags.opening ++ s.language.tags.closing ++ ".\n\n" ++ code
  let reply ← s.ask (s.newHistory.messages ++ [⟨.user, request⟩])
  let inner := reply.code s.language.tags
  let found ← if inner.isEmpty then replyText reply else pure inner
  return Text.trim found

end Session

end Recast
