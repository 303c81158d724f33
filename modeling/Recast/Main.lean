import Recast.Dialogue.Script
import Recast.Shell.Perform
import Recast.Target.Facts

/-!
The program. It works on the files below the current folder: they are read before a task begins and
written back when it has ended. Without a connection to a service, a rehearsal file named by the
variable `RECAST_REHEARSAL` says what the service and the parsers answer.
-/

namespace Recast.Program

open Shell

/-- The files below a folder, with the names on the way to them. -/
partial def filesBelow (names : List String) : IO (List (Key × Content)) := do
  let mut found := []
  let folder := names.foldl (· / ·) (← IO.currentDir)
  for entry in ← folder.readDir do
    let here := names ++ [entry.fileName]
    if ← entry.path.isDir then found := found ++ (← filesBelow here)
    else
      let bytes ← IO.FS.readBinFile entry.path
      found := found ++ [(here.map String.toList, Content.bytes bytes.toList)]
  return found

def treeHere : IO Tree := do
  return (← filesBelow []).foldl (fun t f => ((t.place f.1 f.2).toOption).getD t) Tree.empty

def bytesOf : Content → ByteArray
  | .text s => (String.ofList s).toUTF8
  | .bytes bs => ⟨bs.toArray⟩

/-- Writes the files that a task has changed. -/
def writeBack (before after : Tree) : IO Unit := do
  let here ← IO.currentDir
  let path (k : Key) := k.foldl (fun p name => p / String.ofList name) here
  for (k, _) in before.files do
    if !after.isFile k then IO.FS.removeFile (path k)
  for (k, c) in after.files do
    if before.file? k ≠ some c then
      IO.FS.createDirAll (path k.dropLast)
      IO.FS.writeBinFile (path k) (bytesOf c)

def keyNamed? (name : String) : IO (Option (Text × Text)) := do
  return (← IO.getEnv name).map fun v => (name.toList, v.toList)

def rehearsal : IO (Option Value) := do
  match ← IO.getEnv "RECAST_REHEARSAL" with
  | some file => return Json.read? .kept (← IO.FS.readFile file).toList
  | none => return none

def desk : IO Desk := do
  let keys ← ["OPENAI_API_KEY", "OPENROUTER_API_KEY", "ANTHROPIC_API_KEY"].filterMapM keyNamed?
  let script ← rehearsal
  let now ← IO.monoMsNow
  let tail ← IO.rand 0 0xffffffff
  return {
    environment := keys
    rehearsal := script.map fun v => Script.read (v.field "service")
    parsers := Facts.parsers ((script.map fun v => v.itemsAt "parses").getD [])
    now := now.toFloat / 1000
    session := "session_" ++ Numeral.ofNat (now / 1000) ++ "_" ++ Numeral.hex 8 tail }

def print (lines : List Text) : IO Unit := for l in lines do IO.println (String.ofList l)

/-- Carries a task out again and again, each time with one more typed line, until it asks nothing
more. Lines that were shown before are not shown again. -/
partial def carryOut (d : Desk) (words : List Text) (start : Tree) (typed : List Text) (shown : Nat) :
    IO UInt32 := do
  let (code, fault, b) := Act.finish (Act.line d words) { tree := start, input := typed }
  print (b.screen.drop shown)
  match b.question with
  | some question =>
    IO.print (String.ofList question ++ " [y/N]: ")
    (← IO.getStdout).flush
    let line ← (← IO.getStdin).getLine
    if line.isEmpty then return UInt32.ofNat code
    carryOut d words start (typed ++ [Text.dropEnding line.toList]) b.screen.length
  | none =>
    writeBack start b.tree
    if fault.isSome then IO.eprintln "The task ended with a fault."
    return UInt32.ofNat code

end Recast.Program

def main (words : List String) : IO UInt32 := do
  let d ← Recast.Program.desk
  Recast.Program.carryOut d (words.map String.toList) (← Recast.Program.treeHere) [] 0
