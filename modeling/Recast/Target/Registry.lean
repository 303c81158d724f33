import Recast.Target.Blocks
import Recast.Target.Modules
import Recast.Target.Packages
import Recast.Text.Case

/-!
The target languages that have rules of their own. Every other language is known by its block
symbols only, which the settings name.
-/

namespace Recast

/-- The kinds of target languages. -/
inductive Dialect where
  | blocks
  | modules
  | packages
  deriving DecidableEq

/-- The parsers of the languages that have one. -/
structure Parsers where
  module : ModuleParser
  tree : Text → Node

namespace Dialect

def blockTarget (name : Text) (settings : Option LanguageSettings) : Target :=
  match settings with
  | some s => .blocks name s.outputExtension s.symbols
  | none => .blocks name ".txt" .braces

def target (parsers : Parsers) : Dialect → Target
  | .blocks => blockTarget "generic" none
  | .modules => .modules parsers.module
  | .packages => .packages parsers.tree

end Dialect

structure Registry where
  dialects : List (Text × Dialect)

namespace Registry

def standard : Registry := ⟨[("python".toList, .modules), ("java".toList, .packages)]⟩

/-- The name under which a language is registered; case and blanks around it do not matter. -/
def key (language : Text) : Text :=
  let name := Text.lower (Text.trim language)
  if name = "py".toList || name = "python3".toList then "python" else name

def dialect? (r : Registry) (language : Text) : Option Dialect :=
  (r.dialects.find? fun p => p.1 == key language).map (·.2)

def supports (r : Registry) (language : Text) : Bool := (r.dialect? language).isSome

def register (r : Registry) (language : Text) (d : Dialect) : Registry :=
  ⟨(r.dialects.filter fun p => p.1 != key language) ++ [(key language, d)]⟩

def languages (r : Registry) : List Text := Text.sorted (r.dialects.map (·.1))

/-- The target for a language; a language that is not registered goes by its block symbols. -/
def target (r : Registry) (parsers : Parsers) (language : Text) (settings : Option LanguageSettings) :
    Target :=
  match r.dialect? language with
  | some d => d.target parsers
  | none => Dialect.blockTarget (key language) settings

end Registry

end Recast
