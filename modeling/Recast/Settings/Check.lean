import Recast.Check.Basic
import Recast.Settings.Basic

/-!
Settings read from values. Every record lists its fields in the order in which faults are reported.
-/

namespace Recast

namespace Check

def path : Check Path
  | .text s => .ok (.ofText s)
  | _ => .fault .pathType

/-- An extension begins with a point. -/
def extension (v : Value) : Checked Text :=
  (text v).map fun s =>
    let s := Text.trim s
    if s.isEmpty || s.head? = some '.' then s else '.' :: s

def blockStart (v : Value) : Checked BlockStart :=
  (text v).andThen fun s =>
    match BlockStart.read s with
    | .ok b => .ok b
    | .error e =>
      if e.fault = .tooManyRepeats then .fault .patternTooLarge
      else .fault (.refused ("block_start_keyword is not a valid regex: " ++ e.message s))

/-- The symbol of one side of a block; a type of its own keeps it from being empty. -/
def symbol (v : Value) : Checked { s : Text // s ≠ [] } :=
  (text v).andThen fun s => if h : s ≠ [] then .ok ⟨s, h⟩ else .fault .textTooShort

end Check

open Check

namespace LanguageSettings

def check (v : Value) : Checked LanguageSettings :=
  (fun target input output prompt chunk outline opening closing start finish openSymbol closeSymbol package =>
    { target := target, inputExtension := input, outputExtension := output, prompt := prompt,
      chunkSize := chunk, outlineThreshold := outline, tags := ⟨opening, closing⟩,
      blockStart := start, blockEnd := finish,
      symbols := ⟨openSymbol.1, closeSymbol.1, openSymbol.2, closeSymbol.2⟩, package := package })
  <$> required "target_language" text v
  <*> required "input_extension" extension v
  <*> required "output_extension" extension v
  <*> required "prompt" text v
  <*> field "max_chunk_size" 4000 positive v
  <*> field "class_structure_threshold" 2000 positive v
  <*> field "opening_tag" Tags.standard.opening text v
  <*> field "closing_tag" Tags.standard.closing text v
  <*> field "block_start_keyword" .typeDeclaration Check.blockStart v
  <*> field "block_end_keyword" ['\x7b'] text v
  <*> field "block_open_symbol" ⟨['\x7b'], List.cons_ne_nil _ _⟩ symbol v
  <*> field "block_close_symbol" ⟨['\x7d'], List.cons_ne_nil _ _⟩ symbol v
  <*> field "package_name" none (optional text) v

end LanguageSettings

namespace ServiceSettings

def standard : ServiceSettings := {}

def check (v : Value) : Checked ServiceSettings :=
  ServiceSettings.mk
  <$> field "provider" standard.provider (choiceOf Provider.ofName?) v
  <*> field "host" standard.host text v
  <*> field "api_key" none (optional text) v
  <*> field "api_url" none (optional text) v
  <*> field "model" standard.model text v
  <*> field "temperature" standard.temperature (numberWithin 0 (some 2)) v
  <*> field "timeout" standard.timeout whole v
  <*> field "max_tokens" standard.maxTokens positive v

end ServiceSettings

namespace RunSettings

def standard : RunSettings := {}

def check (v : Value) : Checked RunSettings :=
  RunSettings.mk
  <$> field "max_history" standard.maxHistory (atLeast 1) v
  <*> field "max_continuations" standard.maxContinuations (atLeast 1) v
  <*> field "max_redo_attempts" standard.maxRedos (atLeast 0) v
  <*> field "max_repair_depth" standard.maxRepairDepth (atLeast 0) v
  <*> field "max_repair_rounds" standard.maxRepairRounds (atLeast 0) v
  <*> field "max_service_retries" standard.maxRetries (atLeast 0) v
  <*> field "retry_backoff_seconds" standard.backoff (numberWithin 0 none) v
  <*> field "include_meta_context" false truth v
  <*> field "meta_summary_max_chars" standard.summaryLength positive v
  <*> field "generate_file_names" false truth v
  <*> field "merge_small_files" false truth v
  <*> field "small_file_threshold" standard.smallSize positive v
  <*> field "max_rewrite_iterations" standard.maxPasses (atLeast 1) v
  <*> field "log_conversations" false truth v

end RunSettings

namespace ProjectSettings

def standard : ProjectSettings := {}

def check (v : Value) : Checked ProjectSettings :=
  ProjectSettings.mk
  <$> field "name" standard.name text v
  <*> field "source_root" standard.sourceRoot path v
  <*> field "output_dir" standard.output path v
  <*> field "state_dir" none (optional path) v

end ProjectSettings

namespace Settings

def check (v : Value) : Checked Settings :=
  Settings.mk
  <$> field "project" {} ProjectSettings.check v
  <*> required "language" LanguageSettings.check v
  <*> field "llm" {} ServiceSettings.check v
  <*> field "translation" {} RunSettings.check v

end Settings

end Recast
