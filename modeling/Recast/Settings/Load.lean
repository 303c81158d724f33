import Recast.Settings.Check
import Recast.Settings.Sections
import Recast.Text.Line
import Recast.Yaml.Value

/-!
Settings from the text of a settings file, or from the wishes of one run on top of such a file. A
service without a key gets it from the environment, where every provider has a variable of its own.
-/

namespace Recast

inductive SettingsError where
  | notFound (path : Text)
  | malformed
  | unread (f : Yaml.Fault)
  | empty
  | notMapping
  | badSection (f : SectionFault)
  | unset (name : Text)
  | invalid (faults : List Fault)
  | unknownOption (name : Text)
  /-- The project itself is at fault, not what a file says about it. -/
  | badProject (faults : List Fault)

namespace SettingsError

def message? : SettingsError → Option Text
  | .notFound path => some ("Configuration file not found: " ++ path)
  | .malformed => some "Invalid YAML in configuration file".toList
  | .empty => some "Configuration file is empty".toList
  | .notMapping => some "Configuration file must contain a mapping".toList
  | .unset name => some ("Missing required setting: " ++ name)
  | .invalid _ => some "Configuration validation failed".toList
  | .unknownOption name => some ("Unknown option: " ++ name)
  | .unread _ | .badSection _ | .badProject _ => none

end SettingsError

/-- Variables with their values. -/
abbrev Environment := List (Text × Text)

namespace ServiceSettings

/-- A key that is not set is looked up in the variable of the provider. -/
def withKey (env : Environment) (s : ServiceSettings) : ServiceSettings :=
  match s.key with
  | some (_ :: _) => s
  | _ =>
    match s.provider.keyVariable?.bind fun name => env.lookup name with
    | some (c :: r) => { s with key := some (c :: r) }
    | _ => s

end ServiceSettings

namespace Settings

def withKey (env : Environment) (s : Settings) : Settings :=
  { s with service := s.service.withKey env }

def orInvalid {α : Type} : Checked α → Except SettingsError α
  | .ok a => .ok a
  | .faults fs => .error (.invalid fs)

def requireLanguage (language : List (Text × Value)) : Except SettingsError Unit :=
  match Sections.firstUnset? language with
  | some name => .error (.unset name)
  | none => .ok ()

def ofSections (env : Environment) (s : Sections) : Except SettingsError Settings := do
  requireLanguage s.language
  return (← orInvalid (check s.toValue)).withKey env

/-- The settings that the value of a settings file stands for. -/
def ofValue (env : Environment) : Value → Except SettingsError Settings
  | .null => .error .empty
  | .dict entries =>
    match Sections.ofEntries entries with
    | .ok s => ofSections env s
    | .error f => .error (.badSection f)
  | _ => .error .notMapping

def ofText (env : Environment) (s : Text) : Except SettingsError Settings :=
  match Yaml.read (Text.plainFeeds s) with
  | .ok v => ofValue env v
  | .error .malformed => .error .malformed
  | .error f => .error (.unread f)

end Settings

/-- What one run wishes; fields that are not set leave the settings as they are. -/
structure Wishes where
  source : Path
  output : Path
  target : Value
  inputExtension : Value
  outputExtension : Value
  prompt : Value := .null
  name : Value := .null
  options : List (Text × Value) := []

namespace Wishes

/-- The language of the settings with the wishes in it; without any prompt there is a plain one. -/
def language (w : Wishes) (base : Option Settings) : List (Text × Value) :=
  let given := (base.map fun s => s.language.toValue.entries).getD []
  let given := Value.insert given "target_language".toList w.target
  let given := Value.insert given "input_extension".toList w.inputExtension
  let given := Value.insert given "output_extension".toList w.outputExtension
  if w.prompt.truthy then Value.insert given "prompt".toList w.prompt
  else if ((Value.lookup? given "prompt".toList).getD .null).truthy then given
  else Value.insert given "prompt".toList
    (.text ("Translate the following code to " ++ w.target.display))

/-- Puts an option into the section that has a field of its name. -/
def place (s : Sections) (e : Text × Value) : Except SettingsError Sections :=
  let (name, v) := e
  match v with
  | .null => .ok s
  | _ =>
    if RunSettings.names.contains name then .ok { s with run := Value.insert s.run name v }
    else if ServiceSettings.names.contains name then
      .ok { s with service := Value.insert s.service name v }
    else if LanguageSettings.names.contains name then
      .ok { s with language := Value.insert s.language name v }
    else .error (.unknownOption name)

def project (w : Wishes) : Value :=
  let named := if w.name.truthy then w.name
    else .text (if w.source.name.isEmpty then ProjectSettings.standard.name else w.source.name)
  .record [("name", named), ("source_root", .text w.source.toText),
    ("output_dir", .text w.output.toText),
    ("state_dir", .text (w.output.child ".reprogrammer").toText)]

/-- The settings of one run. -/
def settings (w : Wishes) (env : Environment) (base : Option Settings) :
    Except SettingsError Settings := do
  let language := w.language base
  Settings.requireLanguage language
  let entries {α : Type} (part : Settings → α) (f : α → Value) : List (Text × Value) :=
    (base.map fun s => (f (part s)).entries).getD []
  let s ← w.options.foldlM place
    ⟨[], language, entries Settings.service ServiceSettings.toValue, entries Settings.run RunSettings.toValue⟩
  let project ← match ProjectSettings.check w.project with
    | .ok p => pure p
    | .faults fs => throw (.badProject fs)
  let language ← Settings.orInvalid (LanguageSettings.check (.dict s.language))
  let service ← Settings.orInvalid (ServiceSettings.check (.dict s.service))
  let run ← Settings.orInvalid (RunSettings.check (.dict s.run))
  return Settings.withKey env ⟨project, language, service, run⟩

end Wishes

end Recast
