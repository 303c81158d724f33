import Recast.Dialogue.Client
import Recast.Run.Project
import Recast.Settings.Load
import Recast.Settings.Starter
import Recast.Shell.Screen
import Recast.Shell.Task
import Recast.Target.Registry

/-!
Carrying out a task. A task shows lines on the screen, may ask for confirmation, changes files, and
ends with an exit code; a fault that no task expects ends it as well.
-/

namespace Recast.Shell

/-- What a task finds around it. -/
structure Desk where
  environment : Environment := []
  /-- A service to rehearse with, in place of the one that the settings name. -/
  rehearsal : Option Service := none
  parsers : Parsers
  now : Float
  session : Text

/-- What a task changes. -/
structure Bench where
  tree : Tree
  line : Line := {}
  screen : List Text := []
  input : List Text := []
  question : Option Text := none

/-- A fault that ends a task before its time. -/
inductive Failure where
  | settings (e : SettingsError)
  | service (faults : List Fault)
  | file (f : FileFault)
  | store (e : StoreError)
  | run (e : RunError)
  | noPattern
  | crashed
  | unopenedStyle

inductive Stop where
  | exit (code : Nat)
  | failure (f : Failure)

abbrev Act := ExceptT Stop (StateM Bench)

namespace Act

variable {α : Type}

def fail (f : Failure) : Act α := throw (.failure f)

def exit (code : Nat) : Act α := throw (.exit code)

def display (width : Nat) (s : Text) : Act Unit :=
  match Markup.plain? s with
  | some shown => modify fun b => { b with screen := b.screen ++ Screen.linesOf width shown }
  | none => fail .unopenedStyle

def say (s : Text) : Act Unit := display Screen.width s

def styled (style : String) (s : Text) : Text := "[" ++ style.toList ++ "]" ++ s ++ "[/" ++ style.toList ++ "]"

/-- One of the words for yes, or for no; nothing typed means no. -/
def verdict? (typed : Text) : Option Bool :=
  let w := String.ofList (Text.trim (typed.map Char.toLower))
  if ["y", "yes"].contains w then some true
  else if ["n", "no", ""].contains w then some false
  else none

/-- The first verdict among the typed lines, and the lines behind it. -/
def firstVerdict? : List Text → Option (Bool × List Text)
  | [] => none
  | typed :: rest =>
    match verdict? typed with
    | some yes => some (yes, rest)
    | none => firstVerdict? rest

/-- Asks until yes or no is typed. -/
def confirm (question : Text) : Act Bool := do
  match firstVerdict? (← get).input with
  | some (yes, rest) =>
    modify fun b => { b with input := rest }
    return yes
  | none =>
    modify fun b => { b with input := [], question := some question }
    exit 1

def keyOf (path : Text) : Key := Key.ofPath (.ofText path)

/-- A path has to lead to something. -/
def requirePath (path : Text) : Act Unit := do
  if !(← get).tree.exists? (keyOf path) then exit 2

/-- What settings give, or a message if they are at fault. -/
def orExplained (r : Except SettingsError α) : Act α :=
  match r with
  | .ok a => return a
  | .error e => do
    match e.message? with
    | none => fail (.settings e)
    | some why =>
      let colon : Text := match e with
        | .invalid _ | .malformed => [':']
        | _ => []
      say (styled "bold red" "Configuration error:" ++ " " ++ why ++ colon)
      exit 1

variable (d : Desk)

def readSettings (path : Text) : Act (Except SettingsError Settings) := do
  requirePath path
  match (← get).tree.readText (keyOf path) with
  | .ok s => return Settings.ofText d.environment s
  | .error f => fail (.file f)

/-- The settings file of a task, if it names one. -/
def baseSettings (path : Option Text) : Act (Option Settings) := do
  match path with
  | none | some [] => return none
  | some path =>
    say (styled "cyan" ("Loading configuration from " ++ path ++ "..."))
    return some (← orExplained (← readSettings d path))

/-- No one answers. -/
def absent : Service where
  answer _ _ := { outcome := .failed "LLM API call failed: Connection error." }
  reachable := .reply (.other (.bool false))

/-- The service that the settings name; without a key or an address there is none. -/
def serviceOf (s : ServiceSettings) : Except Text Service :=
  match d.rehearsal with
  | some service => .ok service
  | none => (Client.ofSettings s).map fun _ => absent

def converter (s : Settings) (store : Store) (service : Service) : Converter where
  settings := s
  service := service
  target := Registry.standard.target d.parsers s.language.target (some s.language)
  store := store
  watches := []
  now := d.now

def outcomeStyle : FileOutcome → String
  | .clean => "green"
  | .flagged => "yellow"
  | .failed => "red"

/-- What a run says while it goes on. -/
def eventLine? (e : Event) : Option Text :=
  match e.kind, e.outcome with
  | .fileFinished, some o => some (styled (outcomeStyle o) o.name ++ " " ++ e.path.getD [])
  | .error, _ => some (styled "red" e.message)
  | _, _ => none

/-- Carries out a run, with what it says. -/
def perform (run : Run RunResult) : Act (Except RunError RunResult) := do
  let b ← get
  let (r, w) := run.run.run { tree := b.tree, line := b.line }
  set { b with tree := w.tree, line := w.line }
  for s in w.events.filterMap eventLine? do say s
  return r

def truthText (b : Bool) : Text := if b then "True".toList else "False".toList

def label (s : String) : Text := styled "bold cyan" s.toList

/-- The frame with the settings of a run. -/
def showSettings (s : Settings) (files : Nat) : Act Unit := do
  say "Reprogrammer"
  display Screen.frameWidth (Text.trim (
    label "Source:" ++ " " ++ s.project.sourceRoot.toText ++ " (" ++ Numeral.ofNat files ++ " " ++
      s.language.inputExtension ++ " files)\n" ++
    label "Output:" ++ " " ++ s.project.output.toText ++ "\n" ++
    label "Target:" ++ " " ++ s.language.target ++ " (" ++ s.language.outputExtension ++ ")\n" ++
    label "Model:" ++ " " ++ s.service.provider.name ++ " / " ++ s.service.model ++ "\n" ++
    label "Meta context:" ++ " " ++ truthText s.run.summaries ++ "  " ++
    label "Generated names:" ++ " " ++ truthText s.run.generateNames ++ "  " ++
    label "Merge small files:" ++ " " ++ truthText s.run.mergeSmall))

/-- One row of a table. -/
def row (cells : List Text) : Act Unit := say (Text.join [' '] cells)

def showResult (r : RunResult) : Act Unit := do
  say "Translation Summary"
  row ["Outcome", "Files"]
  row [styled "green" "Clean", Numeral.ofNat r.clean]
  row [styled "yellow" "Flagged", Numeral.ofNat r.flagged]
  row [styled "red" "Failed", Numeral.ofNat r.failed]
  let flagged := r.files.filter fun f => f.outcome = .flagged
  if !flagged.isEmpty then
    say (styled "yellow" "Flagged (written, but check them):")
    for f in flagged do say ("  " ++ f.output ++ ": " ++ f.message.getD [])
  let failed := r.failedPaths
  if !failed.isEmpty then
    say (styled "red" "Failed:")
    for path in failed do say ("  " ++ path)
  if r.cancelled then
    say (styled "yellow" "Run cancelled. Use 'reprogrammer resume' to continue.")
  else if !r.converged then
    say (styled "yellow" ("Cross-file rewrite stopped after " ++ Numeral.ofNat r.passes ++
      " passes without converging."))

/-- Carries out a run and shows its result; a service that does not answer ends the task. -/
def report (s : Settings) (store : Store) (run : Converter → Run RunResult) (closing : Option Text) :
    Act Unit := do
  let explain (why : Text) : Act RunResult := do
    say (styled "bold red" "Generation service error:" ++ " " ++ why)
    exit 1
  let result ← match serviceOf d s.service with
    | .error why => explain why
    | .ok service =>
      let c := converter d s store service
      match ← perform (c.reported (run c)) with
      | .ok r => pure r
      | .error (.talk (.service why)) => explain why
      | .error e => fail (.run e)
  showResult result
  match closing with
  | some s => say s
  | none => pure ()
  if result.failed ≠ 0 then exit 2

/-- A text that says something. -/
def given (s : Option Text) : Option Text := s.filter fun t => !t.isEmpty

def wishes (c : Conversion) (base : Option Settings) : Wishes :=
  let orBase (own : Option Text) (f : LanguageSettings → Text) : Value :=
    .text ((given own).getD ((base.map fun s => f s.language).getD []))
  { source := .ofText c.source, output := .ofText c.output
    target := orBase c.target LanguageSettings.target
    inputExtension := orBase c.inputExtension LanguageSettings.inputExtension
    outputExtension := orBase c.outputExtension LanguageSettings.outputExtension
    prompt := .optional .text c.prompt
    name := .optional (fun s => .text s.project.name) base
    options := (Value.record
      [("package_name", .optional .text c.package), ("provider", .optional .text c.provider),
        ("model", .optional .text c.model), ("include_meta_context", .optional .bool c.summaries),
        ("generate_file_names", .optional .bool c.generateNames),
        ("merge_small_files", .optional .bool c.mergeSmall)]).entries }

def convert (c : Conversion) : Act Unit := do
  let base ← baseSettings d c.settings
  let named := [c.target, c.inputExtension, c.outputExtension].all fun s => (given s).isSome
  if base.isNone && !named then
    say (styled "bold red" "Error:" ++ " --target-lang, --input-ext and --output-ext " ++
      "are required when not using --config")
    exit 1
  requirePath c.source
  let s ← orExplained ((wishes c base).settings d.environment base)
  match (← get).tree.sources s.project.sourceRoot s.language.inputExtension with
  | none => fail .noPattern
  | some [] =>
    say (styled "yellow" ("No " ++ s.language.inputExtension ++ " files found in " ++ c.source))
  | some files =>
    showSettings s files.length
    let go ← if c.confirmed then pure true else confirm "\nProceed with translation?"
    if !go then
      say (styled "yellow" "Translation cancelled.")
      exit 1
    let closing := styled "cyan" ("Output written to " ++ s.project.output.toText)
    report d s ⟨s.project.checkpoints⟩ (fun c => c.runProject d.session none files) (some closing)

/-- A progress without a name of its own takes the one of the desk. -/
def fresh : Progress :=
  { id := d.session, root := [], output := [], created := d.now, updated := d.now }

def resume (settings : Text) (stateFolder : Option Text) : Act Unit := do
  let s ← orExplained (← readSettings d settings)
  let store : Store := ⟨((given stateFolder).map Path.ofText).getD s.project.checkpoints⟩
  match store.loadLatest (← get).tree (fresh d) with
  | .error e =>
    let explain (head : String) : Act Unit := do
      say (styled "bold red" head.toList ++ " " ++ e.message?.getD [])
      exit 1
    match e with
    | .nothingIn _ => explain "Error:"
    | .version _ => explain "Cannot resume:"
    | e => fail (.store e)
  | .ok p =>
    say (styled "cyan" ("Resuming " ++ p.id ++ ": " ++ Numeral.ofInt p.processed ++ "/" ++
      Numeral.ofInt p.total ++ " files done (" ++ Numeral.ofInt p.percent ++ "%)"))
    report d s store (fun c => c.resume p none) none

def sessions (folder : Text) : Act Unit := do
  match Store.sessions ⟨.ofText folder⟩ (← get).tree with
  | .error e => fail (.store e)
  | .ok [] => say (styled "yellow" ("No checkpoints in " ++ folder))
  | .ok infos =>
    say "Checkpoints"
    row ["Session", "Version", "Files done", "Progress"]
    for i in infos do
      row [i.id.display, i.version.display, i.processed.display, i.percent.display ++ "%"]

/-- Writes the settings file of a new project. -/
def start (file : Text) : Act Unit := do
  if (← get).tree.exists? (keyOf file) then
    if !(← confirm (file ++ " already exists. Overwrite?")) then
      say (styled "yellow" "Cancelled.")
      exit 1
  match (← get).tree.place (keyOf file) (.text Starter.text) with
  | .error f => fail (.file f)
  | .ok t =>
    modify fun b => { b with tree := t }
    say (styled "green" "✓" ++ " Generated settings file: " ++ file)
    say "Edit this file to customize your translation settings."

/-- The service of the settings file, with what the arguments name in place of what it says. -/
def probed (environment : Environment) (base : Option Settings) (provider model : Option Text) :
    Checked ServiceSettings :=
  let entries := (base.map fun s => s.service.toValue.entries).getD []
  let put (name : String) (v : Option Text) (es : List (Text × Value)) : List (Text × Value) :=
    match given v with
    | some t => Value.insert es name.toList (.text t)
    | none => es
  (ServiceSettings.check (.dict (put "model" model (put "provider" provider entries)))).map
    (ServiceSettings.withKey environment)

def probe (settings provider model : Option Text) : Act Unit := do
  let base ← baseSettings d settings
  match probed d.environment base provider model with
  | .faults fs => fail (.service fs)
  | .ok s =>
    let refuse (why : Text) : Act Unit := do
      say (styled "bold red" "✗" ++ " " ++ why)
      exit 1
    let name := s.provider.name ++ " / " ++ s.model
    match (serviceOf d s).map Service.reachable with
    | .error why => refuse why
    | .ok (.failed why) => refuse why
    | .ok (.crashed _) => fail .crashed
    | .ok (.reply r) =>
      let answers := match r with
        | .text t => !t.isEmpty
        | .other v => v.truthy
      if answers then say (styled "green" "✓" ++ " " ++ name ++ " is reachable")
      else refuse (name ++ " is not reachable")

def task : Task → Act Unit
  | .convert c => convert d c
  | .resume settings folder => resume d settings folder
  | .sessions folder => sessions folder
  | .start file => start file
  | .probe settings provider model => probe d settings provider model

/-- Carries out what the words of a command line ask for. -/
def line (words : List Text) : Act Unit :=
  match Task.read words with
  | .ok t => task d t
  | .error .help => return
  | .error .misused => exit 2

/-- The exit code, the fault that ended the task if one did, and what is left on the bench. -/
def finish (act : Act Unit) (b : Bench) : Nat × Option Failure × Bench :=
  match act.run.run b with
  | (.ok (), b) => (0, none, b)
  | (.error (.exit code), b) => (code, none, b)
  | (.error (.failure f), b) => (1, some f, b)

end Act

end Recast.Shell
