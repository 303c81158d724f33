import Recast.Repair
import Recast.Run.Bundle
import Recast.Run.Result
import Recast.Run.World
import Recast.Source.Outline

/-!
The conversion of one file: its chunks one after the other, then repair until no issue is left or
the bounds are reached. What goes wrong with a file is written into its result; only a
cancellation ends the run.
-/

namespace Recast

/-- All that the work on a project needs. -/
structure Converter where
  settings : Settings
  service : Service
  target : Target
  store : Store
  watches : List Watch := []
  now : Float

namespace Converter

variable (c : Converter)

def session : Session where
  service := c.service
  language := c.settings.language
  run := c.settings.run
  maxTokens := c.settings.service.maxTokens

def poll : Run Unit := Run.poll c.watches

def emit (e : Event) : Run Unit := Run.emit c.watches e

/-- Where the output of a file goes at first: beside it, with the extension of the target. -/
def outputOf? (source : Text) : Option Text :=
  ((Path.ofText source).withExtension? c.settings.language.outputExtension).map Path.toText

def outlineNote : Text :=
  "This is the outline of a type. Lines of the form @@BODY_n@@ stand for member " ++
    "bodies translated separately: keep each of them unchanged on its own line."

def repairQuestion : Text :=
  "The translated code below fails to parse with these errors. " ++
    "Do these errors need fixing (are they real syntax errors in the code)?"

/-- Code ends with a line feed where the text did that it stands for. -/
def endingLike (text code : Text) : Text :=
  if Text.endsWith "\n" text && !code.isEmpty && !Text.endsWith "\n" code then code ++ ['\n']
  else code

/-- Converts a text; what there is of an answer that never came to an end counts as its code, and
the last part says whether it did. -/
def convertText (prompt text context : Text) (history : History) : Run (Text × History × Bool) := do
  match ← Run.observe (Run.talk (c.session.convert prompt text context history)) with
  | .ok (code, history) => return (code, history, true)
  | .error (.talk (.incomplete _ code)) => return (code, history, false)
  | .error e => throw e

def convertBodies (context : Text) : List Text → History → Run (List Text × History × Bool)
  | [], history => return ([], history, true)
  | body :: rest, history => do
    c.poll
    let (code, history, complete) ← c.convertText c.settings.language.prompt body context history
    let (more, history, allComplete) ← convertBodies context rest history
    return (endingLike body code :: more, history, complete && allComplete)

/-- A long type: its outline first, then the bodies of its members. -/
def convertOutline (text context : Text) (history : History) : Run (Text × History × Bool) := do
  let symbols := c.settings.language.symbols
  let outline := Outline.ofText symbols text
  let (code, history, complete) ←
    c.convertText (c.settings.language.prompt ++ "\n\n" ++ outlineNote) outline.text context history
  let bodyContext := Text.trim (context ++ "\n\nThe member belongs to:\n" ++ outline.text)
  let (bodies, history, allComplete) ← c.convertBodies bodyContext outline.bodies history
  return (Outline.reassemble symbols.closing code bodies, history, complete && allComplete)

def convertChunk (chunk : Chunk) (context : Text) (history : History) : Run (Text × History × Bool) :=
  if Chunk.needsOutline c.settings.language chunk then c.convertOutline chunk.text context history
  else c.convertText c.settings.language.prompt chunk.text context history

def chunkEvent (source : Text) (index total : Nat) : Event where
  kind := .chunkConverted
  message := "Chunk " ++ Numeral.ofNat (index + 1) ++ "/" ++ Numeral.ofNat total
  path := some source
  current := index + 1
  total := total

/-- The code of all chunks, the chunks that failed, and the history. -/
def convertChunks (source context : Text) (total : Nat) :
    List Chunk → History → Run (Text × List Int × History)
  | [], history => return ([], [], history)
  | chunk :: rest, history => do
    c.poll
    let (code, history, complete) ← c.convertChunk chunk context history
    c.emit (chunkEvent source chunk.index total)
    let (more, failed, history) ← convertChunks source context total rest history
    return (endingLike chunk.text code ++ more,
      if complete then failed else (chunk.index : Int) :: failed, history)

def repairer : Repairer := ⟨c.session, c.target.issues, c.settings.run.maxRepairDepth⟩

/-- One repair; its requests go on where the conversation stands, but do not enter it. -/
def repairOnce (code : Text) (issues : List Issue) (history : History) : Run Text :=
  ExceptT.mk fun w =>
    let (r, s) := c.repairer.repair code issues (some history) w.line
    (r.mapError .talk, { w with line := s.line })

def confirmRepair (code : Text) (issues : List Issue) (history : History) : Run Bool :=
  let listing := Text.join "\n" (issues.map Issue.shown)
  Run.talk (c.session.confirm repairQuestion ("Errors:\n" ++ listing ++ "\n\nCode:\n" ++ code) history)

def roundEvent (source : Text) (round left : Nat) : Event where
  kind := .repairRound
  message := "Repair round " ++ Numeral.ofNat round ++ ": " ++ Numeral.ofNat left ++ " error(s) left"
  path := some source
  current := round
  total := c.settings.run.maxRepairRounds

/-- Repairs until no issue is left; the number says how many rounds may follow. The text at the end
says why issues are left. -/
def repairRounds (source : Text) (history : History) :
    Nat → Nat → Text → List Issue → Run (Text × List Issue × Option Text)
  | left, done, code, issues => do
    if issues.isEmpty then return (code, [], none)
    else match left with
      | 0 => return (code, issues,
          some (Numeral.ofNat issues.length ++ " syntax error(s) left after repair"))
      | left + 1 =>
        c.poll
        if ← c.confirmRepair code issues history then
          let code ← c.repairOnce code issues history
          let issues := c.target.issues code
          c.emit (c.roundEvent source (done + 1) issues.length)
          repairRounds source history left (done + 1) code issues
        else return (code, issues, some "Remaining errors judged spurious by the service")

/-- The file name of a conversation. -/
def transcriptName (source : Text) : Text :=
  (source.map fun d => if Text.isWord d || d = '.' || d = '-' then d else '_') ++ ".json"

def saveTranscript (source : Text) (history : History) : Run Unit :=
  if c.settings.run.transcripts then
    let folder := Key.ofPath (c.store.folder.child "conversations")
    let content := Json.render (history.transcript "conversation" c.now)
    Run.files fun t => (t.makeFolders folder).bind fun t =>
      t.write (folder ++ [transcriptName source]) (.text content)
  else return

def incompleteNote (failed : List Int) : Option Text :=
  if failed.isEmpty then none else some (Numeral.ofNat failed.length ++ " chunk(s) incomplete")

def noCode (source output : Text) (failed : List Int) : Converted where
  source := source
  output := output
  outcome := .failed
  failedChunks := failed
  message := some "No code produced"

/-- Checks and repairs the code of a file and says what became of it. -/
def finish (source output content code : Text) (failed : List Int) (history : History) :
    Run Converted := do
  if !Text.blank content && Text.blank code then return noCode source output failed
  else
    let (code, issues, reason) ←
      c.repairRounds source history c.settings.run.maxRepairRounds 0 code (c.target.issues code)
    c.saveTranscript source history
    return {
      source := source
      output := output
      content := code
      outcome := if issues.isEmpty && failed.isEmpty then .clean else .flagged
      issues := issues
      failedChunks := failed
      exhausted := !issues.isEmpty
      message := reason.orElse fun _ => incompleteNote failed }

/-- What is known of the files converted before. -/
def summaryContext (given : Text) : Run Text := do
  if !given.isEmpty then return given
  else
    let summary := ((← get).progress.map Progress.summary).getD []
    return if c.settings.run.summaries && !summary.isEmpty then
      "Already translated files:\n" ++ summary else []

def convertOnce (source output content given : Text) : Run Converted := do
  let history := c.session.newHistory
  let chunks := Chunk.split c.settings.language content
  let context ← c.summaryContext given
  let (code, failed, history) ← c.convertChunks source context chunks.length chunks history
  c.finish source output content code failed history

def serviceFailed (source output why : Text) : Converted where
  source := source
  output := output
  outcome := .failed
  message := some why

/-- Tries a file again while the service fails, after longer and longer pauses. -/
def retry (once : Run Converted) (failure : Text → Converted) : Nat → Nat → Run Converted
  | left, tried => do
    match ← Run.observe once with
    | .ok f => return f
    | .error (.talk (.service why)) =>
      match left with
      | 0 => return failure why
      | left + 1 =>
        Run.sleep (c.settings.run.backoff * Float.ofNat (tried + 1))
        retry once failure left (tried + 1)
    | .error e => throw e

def convertFile (path content given : Text) : Run Converted := do
  let source := (Path.ofText path).toText
  match c.outputOf? source with
  | none => throw .noExtension
  | some output =>
    c.retry (c.convertOnce source output content given) (serviceFailed source output)
      c.settings.run.maxRetries 0

end Converter

end Recast
