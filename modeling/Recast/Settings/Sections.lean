import Recast.Settings.Record

/-!
The entries of a settings file, sorted into the sections of the settings. A file names its sections,
or it lists the fields of all of them side by side; a field that stands in its section comes before
one beside it, and of several old names for one field the first that says something counts.
-/

namespace Recast

inductive SectionFault where
  /-- A section that is no mapping and cannot be read as one. -/
  | notPairs
  /-- A part of a section that is not a name and a value. -/
  | notPair
  deriving DecidableEq

/-- The fields of each section, by name. -/
structure Sections where
  project : List (Text × Value)
  language : List (Text × Value)
  service : List (Text × Value)
  run : List (Text × Value)

namespace LanguageSettings

def names : List Text :=
  (toValue { target := [], inputExtension := [], outputExtension := [], prompt := [] }).entries.map (·.1)

end LanguageSettings

namespace ServiceSettings

def names : List Text := (toValue {}).entries.map (·.1)

end ServiceSettings

namespace RunSettings

def names : List Text := (toValue {}).entries.map (·.1)

end RunSettings

namespace ProjectSettings

def names : List Text := (toValue {}).entries.map (·.1)

end ProjectSettings

namespace Sections

/-- A name and a value from two values in a row; only a text can name something. -/
def ofPair (k v : Value) (es : List (Text × Value)) : Except SectionFault (List (Text × Value)) :=
  match k with
  | .text name => .ok (Value.insert es name v)
  | .list _ | .dict _ => .error .notPairs
  | _ => .ok es

/-- A row of two things: two values, a text of two characters, or the names of a mapping. -/
def addPair (es : List (Text × Value)) (v : Value) : Except SectionFault (List (Text × Value)) :=
  match v with
  | .list [a, b] => ofPair a b es
  | .text [a, b] => ofPair (.text [a]) (.text [b]) es
  | .dict [(a, _), (b, _)] => ofPair (.text a) (.text b) es
  | .list _ | .text _ | .dict _ => .error .notPair
  | _ => .error .notPairs

/-- The fields of a section that a file names. -/
def fields (v : Value) : Except SectionFault (List (Text × Value)) :=
  if !v.truthy then .ok []
  else match v with
    | .dict es => .ok es
    | .list vs => vs.foldlM addPair []
    | .text _ => .error .notPair
    | _ => .error .notPairs

/-- An address without the part that names the kind of request. -/
def baseUrl (url : Text) : Text :=
  let url := Text.dropEndWhile (· = '/') url
  let ending? := ["/chat/completions", "/messages"].find? fun w => Text.endsWith w.toList url
  match ending? with
  | some w => url.take (url.length - w.toList.length)
  | none => url

/-- Fields of the service under older names. -/
def olderNames : List (String × String) :=
  [("ai_service", "provider"), ("openai_api_key", "api_key"), ("claude_api_key", "api_key"),
    ("openai_model", "model"), ("claude_model", "model"), ("custom_text_generation_model", "model"),
    ("openai_api_url", "api_url"), ("claude_api_url", "api_url"),
    ("custom_text_generation_api_url", "api_url")]

def currentName? (name : Text) : Option Text :=
  (olderNames.find? fun n => n.1.toList = name).map fun n => n.2.toList

/-- Nothing, or the empty text. -/
def isUnset : Value → Bool
  | .null => true
  | .text s => s.isEmpty
  | _ => false

def sectionNames : List Text := ["project", "language", "llm", "translation"].map String.toList

/-- Puts a field that stands beside the sections into the one it belongs to. -/
def place (s : Sections) (e : Text × Value) : Sections :=
  let (name, v) := e
  if sectionNames.contains name then s
  else if LanguageSettings.names.contains name then
    { s with language := Value.insertNew s.language name v }
  else if RunSettings.names.contains name then { s with run := Value.insertNew s.run name v }
  else if ProjectSettings.names.contains name then
    { s with project := Value.insertNew s.project name v }
  else match currentName? name with
    | some current =>
      let v := if current = "api_url".toList && v.truthy then .text (baseUrl v.display) else v
      if isUnset v then s else { s with service := Value.insertNew s.service current v }
    | none =>
      if ServiceSettings.names.contains name then
        { s with service := Value.insertNew s.service name v }
      else s

def ofEntries (entries : List (Text × Value)) : Except SectionFault Sections := do
  let section? (name : String) : Except SectionFault (List (Text × Value)) :=
    fields ((Value.lookup? entries name.toList).getD .null)
  let project ← section? "project"
  let language ← section? "language"
  let service ← section? "llm"
  let run ← section? "translation"
  return entries.foldl place ⟨project, language, service, run⟩

def toValue (s : Sections) : Value := .record
  [("project", .dict s.project), ("language", .dict s.language), ("llm", .dict s.service),
    ("translation", .dict s.run)]

/-- The first field of a language that has to be set and is not. -/
def firstUnset? (language : List (Text × Value)) : Option Text :=
  (["target_language", "input_extension", "output_extension", "prompt"].map String.toList).find?
    fun name => isUnset ((Value.lookup? language name).getD .null)

end Sections

end Recast
