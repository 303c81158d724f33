import Recast.Settings.Basic

/-!
Settings as values, every field under the name that it has in a settings file.
-/

namespace Recast

namespace LanguageSettings

def toValue (s : LanguageSettings) : Value := .record
  [("target_language", .text s.target), ("input_extension", .text s.inputExtension),
    ("output_extension", .text s.outputExtension), ("prompt", .text s.prompt),
    ("max_chunk_size", .int s.chunkSize), ("class_structure_threshold", .int s.outlineThreshold),
    ("opening_tag", .text s.tags.opening), ("closing_tag", .text s.tags.closing),
    ("block_start_keyword", .text s.blockStart.source), ("block_end_keyword", .text s.blockEnd),
    ("block_open_symbol", .text s.symbols.opening), ("block_close_symbol", .text s.symbols.closing),
    ("package_name", .optional .text s.package)]

end LanguageSettings

namespace ServiceSettings

def toValue (s : ServiceSettings) : Value := .record
  [("provider", .text s.provider.name), ("host", .text s.host), ("api_key", .optional .text s.key),
    ("api_url", .optional .text s.url), ("model", .text s.model),
    ("temperature", .float s.temperature), ("timeout", .int s.timeout),
    ("max_tokens", .int s.maxTokens)]

end ServiceSettings

namespace RunSettings

def toValue (s : RunSettings) : Value := .record
  [("max_history", .int s.maxHistory), ("max_continuations", .int s.maxContinuations),
    ("max_redo_attempts", .int s.maxRedos), ("max_repair_depth", .int s.maxRepairDepth),
    ("max_repair_rounds", .int s.maxRepairRounds), ("max_service_retries", .int s.maxRetries),
    ("retry_backoff_seconds", .float s.backoff), ("include_meta_context", .bool s.summaries),
    ("meta_summary_max_chars", .int s.summaryLength),
    ("generate_file_names", .bool s.generateNames), ("merge_small_files", .bool s.mergeSmall),
    ("small_file_threshold", .int s.smallSize), ("max_rewrite_iterations", .int s.maxPasses),
    ("log_conversations", .bool s.transcripts)]

end RunSettings

namespace ProjectSettings

def toValue (s : ProjectSettings) : Value := .record
  [("name", .text s.name), ("source_root", .text s.sourceRoot.toText),
    ("output_dir", .text s.output.toText),
    ("state_dir", .optional (fun p => .text p.toText) s.stateFolder)]

end ProjectSettings

namespace Settings

def toValue (s : Settings) : Value := .record
  [("project", s.project.toValue), ("language", s.language.toValue), ("llm", s.service.toValue),
    ("translation", s.run.toValue)]

end Settings

end Recast
