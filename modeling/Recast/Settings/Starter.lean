import Recast.Settings.Basic
import Recast.Yaml.Print

/-!
The settings file that a new project starts from.
-/

namespace Recast.Starter

def settings : Value := .record
  [("project", .record
      [("name", .text "my_project"), ("source_root", .text "./src"), ("output_dir", .text "./output")]),
    ("language", .record
      [("target_language", .text "python"), ("input_extension", .text ".java"),
        ("output_extension", .text ".py"),
        ("prompt", .text "Translate the following Java code to idiomatic Python 3"),
        ("max_chunk_size", .int 4000), ("class_structure_threshold", .int 2000),
        ("opening_tag", .text Tags.standard.opening), ("closing_tag", .text Tags.standard.closing),
        ("block_start_keyword", .text BlockStart.typeSource), ("block_end_keyword", .text ['\x7b']),
        ("block_open_symbol", .text ['\x7b']), ("block_close_symbol", .text ['\x7d'])]),
    ("llm", .record
      [("provider", .text Provider.openai.name), ("model", .text "gpt-4-turbo"),
        ("temperature", .float 0.2), ("max_tokens", .int 4096)]),
    ("translation", .record
      [("max_repair_depth", .int 3), ("max_repair_rounds", .int 5),
        ("include_meta_context", .bool false), ("generate_file_names", .bool false),
        ("merge_small_files", .bool false)])]

def text : Text := Yaml.render settings

end Recast.Starter
