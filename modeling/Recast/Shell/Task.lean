import Recast.Shell.Options

/-!
What a command line asks for. Each command has its own options; every one of them can be asked for
help instead, and a line that fits no command is refused.
-/

namespace Recast.Shell

structure Conversion where
  source : Text
  output : Text
  settings : Option Text
  target : Option Text
  inputExtension : Option Text
  outputExtension : Option Text
  prompt : Option Text
  package : Option Text
  provider : Option Text
  model : Option Text
  summaries : Option Bool
  generateNames : Option Bool
  mergeSmall : Option Bool
  confirmed : Bool

inductive Task where
  | convert (c : Conversion)
  | resume (settings : Text) (stateFolder : Option Text)
  | sessions (stateFolder : Text)
  | start (file : Text)
  | probe (settings provider model : Option Text)

/-- Why a line names no task. -/
inductive NoTask where
  | help
  | misused
  deriving DecidableEq

namespace Task

def grammar (valued flags : List String) : Grammar :=
  ⟨valued.map String.toList, (flags ++ ["--help"]).map String.toList⟩

/-- Reads the options of one command; a request for help comes before any other fault. -/
def withWords (g : Grammar) (words : List Text) (f : Words → Option Task) : Except NoTask Task :=
  match g.read? words with
  | none => .error .misused
  | some w =>
    if w.has ["--help"] then .error .help
    else match f w with
      | some t => .ok t
      | none => .error .misused

def convertGrammar : Grammar := grammar
  ["--output", "-o", "--config", "-c", "--target-lang", "-t", "--input-ext", "--output-ext",
    "--prompt", "-p", "--package-name", "--provider", "--model", "-m"]
  ["--meta", "--no-meta", "--generate-names", "--keep-names", "--merge-small", "--no-merge-small",
    "--yes", "-y", "--verbose", "-v"]

def conversion (w : Words) : Option Task :=
  match w.others with
  | [source] => some (.convert {
      source := source
      output := (w.value? ["--output", "-o"]).getD "./output"
      settings := w.value? ["--config", "-c"]
      target := w.value? ["--target-lang", "-t"]
      inputExtension := w.value? ["--input-ext"]
      outputExtension := w.value? ["--output-ext"]
      prompt := w.value? ["--prompt", "-p"]
      package := w.value? ["--package-name"]
      provider := w.value? ["--provider"]
      model := w.value? ["--model", "-m"]
      summaries := w.choice? "--meta" "--no-meta"
      generateNames := w.choice? "--generate-names" "--keep-names"
      mergeSmall := w.choice? "--merge-small" "--no-merge-small"
      confirmed := w.has ["--yes", "-y"] })
  | _ => none

def resumption (w : Words) : Option Task :=
  match w.others, w.value? ["--config", "-c"] with
  | [], some settings => some (.resume settings (w.value? ["--state-dir"]))
  | _, _ => none

def listing (w : Words) : Option Task :=
  match w.others with
  | [] => some (.sessions "./output/.reprogrammer")
  | [folder] => some (.sessions folder)
  | _ => none

def starting (w : Words) : Option Task :=
  match w.others with
  | [] => some (.start ((w.value? ["--output", "-o"]).getD "./settings.yaml"))
  | _ => none

def probing (w : Words) : Option Task :=
  match w.others with
  | [] => some (.probe (w.value? ["--config", "-c"]) (w.value? ["--provider"])
      (w.value? ["--model", "-m"]))
  | _ => none

def ofCommand (command : String) (words : List Text) : Except NoTask Task :=
  match command with
  | "translate" => withWords convertGrammar words conversion
  | "resume" =>
    withWords (grammar ["--config", "-c", "--state-dir"] ["--verbose", "-v"]) words resumption
  | "sessions" => withWords (grammar [] []) words listing
  | "init" => withWords (grammar ["--output", "-o"] []) words starting
  | "check-connection" =>
    withWords (grammar ["--config", "-c", "--provider", "--model", "-m"] ["--verbose", "-v"])
      words probing
  | _ => .error .misused

/-- The command comes first; before it the line can only ask for help. -/
def read : List Text → Except NoTask Task
  | [] => .error .misused
  | word :: rest =>
    if word = "--help".toList then helpBefore rest
    else if word = ['-', '-'] then
      match rest with
      | command :: words => ofCommand (String.ofList command) words
      | [] => .error .misused
    else if Grammar.isOption word then .error .misused
    else ofCommand (String.ofList word) rest
where
  /-- More options before the command still have to be known. -/
  helpBefore : List Text → Except NoTask Task
    | [] => .error .help
    | word :: rest =>
      if word = "--help".toList then helpBefore rest
      else if Grammar.isOption word && word ≠ ['-', '-'] then .error .misused
      else .error .help

end Task

end Recast.Shell
