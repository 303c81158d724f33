import Recast.Rename.Namer
import Recast.Rename.Pass
import Recast.Run.File

/-!
The last step of a run: the completed files are indexed, the renaming is carried through all of
them, and each is written where its type belongs.
-/

namespace Recast.Converter

variable (c : Converter)

/-- A path below the output of a project. -/
def outputKey (p : Progress) (relative : Text) : Key := Key.ofPath ((Path.ofText p.output).child relative)

/-- The outputs of the completed files, as far as they are there. -/
def completedContents (p : Progress) (t : Tree) : List Text → Except FileFault (List (Text × Text))
  | [] => .ok []
  | source :: rest =>
    match (p.outputs.get? source).filter fun o => !o.isEmpty && t.exists? (outputKey p o) with
    | none => completedContents p t rest
    | some output => do
      let content ← t.readText (outputKey p output)
      return (source, content) :: (← completedContents p t rest)

def namer : Namer where
  target := c.target
  package := c.settings.language.package
  session := if c.settings.run.generateNames then some c.session else none

/-- Writes a file where it belongs and removes what it leaves behind, unless some file belongs
there. -/
def moveOutput (p : Progress) (finals : List Text) (e : Entry) (content : Text) (t : Tree) :
    Except FileFault Tree :=
  (t.place (outputKey p e.output) (.text content)).bind fun t =>
    match p.outputs.get? e.source with
    | none => .ok t
    | some old =>
      if old.isEmpty || old == e.output || finals.contains old then .ok t
      else t.remove (outputKey p old)

def moved (e : Entry) (content : Text) (f : Converted) : Converted :=
  { f with output := e.output, content := content }

/-- Moves the files one after the other. -/
def moveAll (index : NameIndex) (finals : List Text) :
    List (Text × Text) → Progress → List Converted → Run (Progress × List Converted)
  | [], p, files => return (p, files)
  | (source, content) :: rest, p, files =>
    match index.bySource? source with
    | none => moveAll index finals rest p files
    | some e => do
      Run.files (moveOutput p finals e content)
      Run.note (.wrote source content)
      let p := { p with outputs := p.outputs.set source e.output }
      modify fun w => { w with progress := some p }
      moveAll index finals rest p (RunResult.updateLast source (moved e content) files)

def renamingEvent (report : RenamingReport) : Event where
  kind := .renamingFinished
  message := "Cross-file rewrite: " ++ Numeral.ofNat report.passes ++ " pass(es), " ++
    Numeral.ofNat report.modified.length ++ " file(s) changed"
  current := report.passes
  total := c.settings.run.maxPasses

/-- The renaming of a project and the final places of its files. -/
def layOut (p : Progress) (result : RunResult) : Run (Progress × RunResult) := do
  match completedContents p (← get).tree p.completedPaths with
  | .error fault => throw (.file fault)
  | .ok [] => return (p, result)
  | .ok contents =>
    let index ← Run.talk (c.namer.index contents)
    match Renaming.apply c.target index c.settings.run.maxPasses contents with
    | none => throw .misplaced
    | some report =>
      let finals := (report.files.filterMap fun f => index.bySource? f.1).map Entry.output
      let (p, files) ← moveAll index finals report.files p result.files
      c.emit (c.renamingEvent report)
      return (p, { result with
        files := files, passes := report.passes, converged := report.converged })

end Recast.Converter
