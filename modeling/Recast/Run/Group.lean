import Recast.Settings.Basic

/-!
Files in groups. Where small files are merged, a group holds consecutive small files of one folder
that fit into one chunk; every other file is a group of its own.
-/

namespace Recast

/-- A file of a project: its path and its text. -/
abbrev Source := Text × Text

namespace Group

def folder (f : Source) : Path := (Path.ofText f.1).parent

def close (held : List Source) : List (List Source) := if held.isEmpty then [] else [held]

/-- Gathers files; `held` is the open group and `size` its length. -/
def gather (small budget : Nat) (held : List Source) (size : Nat) : List Source → List (List Source)
  | [] => close held
  | f :: rest =>
    let length := f.2.length
    let isSmall := length < small
    let joins := isSmall && held.head?.any (fun g => folder g == folder f) && size + length ≤ budget
    if joins then gather small budget (held ++ [f]) (size + length) rest
    else if isSmall then close held ++ gather small budget [f] length rest
    else close held ++ [f] :: gather small budget [] 0 rest

def plan (settings : LanguageSettings) (run : RunSettings) (files : List Source) :
    List (List Source) :=
  if run.mergeSmall then gather run.smallSize settings.chunkSize [] 0 files
  else files.map fun f => [f]

theorem flatten_gather (small budget : Nat) (held : List Source) (size : Nat) (files : List Source) :
    (gather small budget held size files).flatten = held ++ files := by
  have flatten_close (held : List Source) : (close held).flatten = held := by
    cases held <;> simp [close]
  induction files generalizing held size with
  | nil => simp [gather, flatten_close]
  | cons f rest ih =>
    unfold gather
    dsimp only
    split
    · simp [ih]
    · split <;> simp [ih, flatten_close]

end Group

end Recast
