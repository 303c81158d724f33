import Recast.Run.Group
import Recast.Run.Layout

/-!
The run of a project: file after file, each recorded and written when it is done, then the final
layout. A run that was cancelled is resumed from its checkpoint and skips what is completed.
-/

namespace Recast.Converter

variable (c : Converter)

def mergeNote : Text :=
  "Several files follow, each introduced by a line @@FILE path@@. Translate every " ++
    "file and keep each marker line unchanged before its translation."

/-- What the run knows so far; without a run there is nothing to know. -/
def withProgress (f : Progress → Run Unit) : Run Unit := do
  match (← get).progress with
  | some p => f p
  | none => return

def setProgress (p : Progress) : Run Unit := modify fun w => { w with progress := some p }

/-- Writes a checkpoint. -/
def saveProgress : Run Unit := withProgress fun p => do
  Run.note (.saved p (← get).tree)
  match c.store.save (← get).tree p c.now with
  | .ok (p, t) => modify fun w => { w with progress := some p, tree := t }
  | .error e => throw (.store e)

/-- Adds a file to the summary; a service that fails adds nothing. -/
def summarize (f : Converted) : Run Unit := do
  if c.settings.run.summaries then
    match ← Run.observe (Run.talk (c.session.summarize f.output f.content)) with
    | .ok summary =>
      let text : Text := f.output ++ ": " ++ summary
      withProgress fun p => setProgress (p.appendSummary text c.settings.run.summaryLength)
    | .error (.talk (.service _)) => return
    | .error e => throw e

def fileEvent (f : Converted) (done total : Nat) : Event where
  kind := .fileFinished
  message := f.note
  path := some f.source
  current := done
  total := total
  outcome := some f.outcome

/-- Writes a file that is done, records it and saves the progress. -/
def record (f : Converted) (done total : Nat) : Run Unit := do
  if f.outcome.completed then
    withProgress fun p => Run.files fun t => t.place (outputKey p f.output) (.text f.content)
    Run.note (.wrote f.source f.content)
    c.summarize f
  withProgress fun p => setProgress (p.record f.source (some f.output) f.outcome c.now)
  c.saveProgress
  c.emit (fileEvent f done total)

def convertEach : List Source → Run (List Converted)
  | [] => return []
  | (path, content) :: rest => do
    let f ← c.convertFile path content []
    return f :: (← convertEach rest)

/-- Finishes the files of a merged answer. -/
def finishEach (history : History) : List (Source × Text) → Run (List Converted)
  | [] => return []
  | ((path, content), code) :: rest => do
    match c.outputOf? path with
    | none => throw .noExtension
    | some output =>
      let f ← c.finish path output content code [] history
      return f :: (← finishEach history rest)

/-- The parts of a merged answer with its history, if the answer comes apart. -/
def convertMerged (files : List Source) : Run (Option (List Text × History)) := do
  let prompt := c.settings.language.prompt ++ "\n\n" ++ mergeNote
  let context ← c.summaryContext []
  match ← Run.observe (Run.talk
      (c.session.convert prompt (Bundle.join files) context c.session.newHistory)) with
  | .ok (code, history) =>
    return (Bundle.split? code (files.map Prod.fst)).map fun parts => (parts.map Prod.snd, history)
  | .error (.talk (.incomplete _ _)) | .error (.talk (.service _)) => return none
  | .error e => throw e

def groupEvent (files : List Source) : Event where
  kind := .fileStarted
  message := match files with
    | [(path, _)] => "Translating " ++ path
    | _ => "Translating " ++ Numeral.ofNat files.length ++ " small files together"
  path := files.head?.map Prod.fst

/-- The content that a path has in a group; of several the last one counts. -/
def contentOf (files : List Source) (path : Text) : Text :=
  ((files.reverse.find? fun f => f.1 == path).map Prod.snd).getD []

/-- The files of a group, together if that works and one by one if not. -/
def convertGroup (files : List Source) : Run (List Converted) := do
  c.emit (groupEvent files)
  match files with
  | [_] => c.convertEach files
  | _ =>
    match ← c.convertMerged files with
    | none => c.convertEach files
    | some (parts, history) =>
      let named := files.map fun f => (f.1, contentOf files f.1)
      c.finishEach history (named.zip parts)

def recordEach (total : Nat) : List Converted → Nat → RunResult → Run (Nat × RunResult)
  | [], done, result => return (done, result)
  | f :: rest, done, result => do
    c.record f (done + 1) total
    recordEach total rest (done + 1) (result.add f)

/-- All groups; a cancellation ends the work and leaves what is done. -/
def convertGroups (total : Nat) : List (List Source) → Nat → RunResult → Run (Nat × RunResult)
  | [], done, result => return (done, result)
  | group :: rest, done, result => do
    match ← Run.observe (do c.poll; c.convertGroup group) with
    | .error .cancelled =>
      c.emit { kind := .cancelled, message := "Cancelled", current := done, total := total }
      return (done, { result with cancelled := true })
    | .error e => throw e
    | .ok files =>
      let (done, result) ← c.recordEach total files done result
      convertGroups total rest done result

def probe : Run Unit := do
  match c.service.probe with
  | .ok () => return
  | .error why => throw (.talk (.service why))

/-- The progress of a project that has none yet. -/
def newProgress (id : Text) (total : Nat) : Progress where
  id := id
  root := c.settings.project.sourceRoot.toText
  output := c.settings.project.output.toText
  total := total
  created := c.now
  updated := c.now

def summaryLine (r : RunResult) : Text :=
  Numeral.ofNat r.clean ++ " clean, " ++ Numeral.ofNat r.flagged ++ " flagged, " ++
    Numeral.ofNat r.failed ++ " failed"

/-- Runs a project from a given progress. -/
def runFrom (start : Progress) (files : List Source) : Run RunResult := do
  let total := files.length
  setProgress { start with total := max start.total total }
  let pending := files.filter fun f => !start.isCompleted f.1
  let done := total - pending.length
  c.emit { kind := .runStarted, message := "Translating " ++ Numeral.ofNat pending.length ++ " file(s)",
           current := done, total := total }
  let groups := Group.plan c.settings.language c.settings.run pending
  let (done, result) ← c.convertGroups total groups done {}
  let result ← if result.cancelled then pure result else do
    match (← get).progress with
    | none => pure result
    | some p =>
      let (p, result) ← c.layOut p result
      setProgress p
      pure result
  c.saveProgress
  c.emit { kind := .runFinished, message := summaryLine result, current := done, total := total }
  return result

/-- Runs a project; without progress it begins anew under the given name. -/
def runProject (id : Text) (start : Option Progress) (files : List Source) : Run RunResult := do
  let files := files.map fun f => ((Path.ofText f.1).toText, f.2)
  c.probe
  c.runFrom (start.getD (c.newProgress id files.length)) files

/-- Goes on with a project; without files they are looked for below its root. -/
def resume (start : Progress) (files : Option (List Source)) : Run RunResult := do
  match files with
  | some files => c.runProject start.id (some start) files
  | none =>
    match (← get).tree.sources (.ofText start.root) c.settings.language.inputExtension with
    | some files => c.runProject start.id (some start) files
    | none => throw .noPattern

/-- A run in the background also reports the error that ends it. -/
def reported (run : Run RunResult) : Run RunResult := do
  match ← Run.observe run with
  | .ok result => return result
  | .error e =>
    c.emit { kind := .error, message := e.message }
    throw e

end Recast.Converter
