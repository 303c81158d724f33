import Recast.Files.Glob
import Recast.Progress.State

/-!
Checkpoints in a folder. Each is written under the name of its session and once more as the latest
one; a checkpoint of another version is refused.
-/

namespace Recast

inductive StoreError where
  | file (fault : FileFault)
  | unwritable
  | malformed
  | version (found : Value)
  | invalid (faults : List Fault)
  | nothingIn (folder : Path)
  | noRecord

namespace StoreError

def message? : StoreError → Option Text
  | .version found =>
    some ("Checkpoint version " ++ found.shown ++ " does not match expected version 1")
  | .nothingIn folder => some ("No state files found in " ++ folder.toText)
  | _ => none

end StoreError

/-- What a checkpoint says of itself, whether it can be resumed or not. -/
structure SessionInfo where
  id : Value
  version : Value
  processed : Value
  percent : Value
  updated : Value
  file : Text

structure Store where
  folder : Path

namespace Store

def key (s : Store) (name : Text) : Key := Key.ofPath (s.folder.child name)

def fileName (p : Progress) : Text := p.id ++ ".json"

def latest : Text := "latest.json"

/-- Writes a checkpoint; whole numbers beyond 64 bits cannot be written. -/
def save (s : Store) (t : Tree) (p : Progress) (now : Float) :
    Except StoreError (Progress × Tree) := do
  let p := { p with updated := now }
  let t ← (t.makeFolders (Key.ofPath s.folder)).mapError .file
  if !Json.fits p.toValue then throw .unwritable
  let content := Content.text (Json.render p.toValue)
  let t ← (t.write (s.key (fileName p)) content).mapError .file
  let t ← (t.write (s.key latest) content).mapError .file
  return (p, t)

def parse (c : Content) : Option Value := c.strict?.bind (Json.read? .rounded)

/-- Reads a checkpoint; its version is looked at before anything else. -/
def read (fresh : Progress) (c : Content) : Except StoreError Progress :=
  match parse c with
  | none => .error .malformed
  | some v =>
    let found := (v.get? "version").getD .null
    if !found.isNumber 1 then .error (.version found)
    else match Progress.check fresh v with
      | .ok p => .ok p
      | .faults fs => .error (.invalid fs)

def load (t : Tree) (fresh : Progress) (k : Key) : Except StoreError Progress :=
  ((t.read k).mapError StoreError.file).bind (read fresh)

/-- The names of session files and folders, the last in order first. -/
def sessionNames (s : Store) (t : Tree) : List Text :=
  let here := Key.ofPath s.folder
  let inside (k : Key) : Option Text := if k.dropLast = here then k.getLast? else none
  let names := (t.files.map (·.1) ++ t.folders).filterMap inside
  (Text.sorted (names.filter (Glob.nameMatches "session_*.json"))).reverse

def loadLatest (s : Store) (t : Tree) (fresh : Progress) : Except StoreError Progress :=
  if t.exists? (s.key latest) then load t fresh (s.key latest)
  else match s.sessionNames t with
    | [] => .error (.nothingIn s.folder)
    | name :: _ => load t fresh (s.key name)

def info (name : Text) (v : Value) : SessionInfo :=
  let entry (field : Text) : Value := (v.get? field).getD .null
  ⟨entry "session_id", entry "version", entry "files_processed_count", entry "last_progress_percent",
    entry "updated_at", name⟩

/-- What the session files say, those that cannot be read being left out. A file that holds
something else than a record stops the listing. -/
def sessions (s : Store) (t : Tree) : Except StoreError (List SessionInfo) :=
  (s.sessionNames t).foldrM (fun name infos =>
    match t.file? (s.key name) |>.bind parse with
    | none => .ok infos
    | some (.dict es) => .ok (info name (.dict es) :: infos)
    | some _ => .error .noRecord) []

end Store

end Recast
