import Recast.Text.Basic

/-!
The words of a command line. An option is spelled with one hyphen and a letter or with two and a
word; its value stands in the next word, behind an equals sign, or, for a letter, right behind it.
Letters without a value may share a hyphen, and two hyphens alone end the options.
-/

namespace Recast.Shell

/-- The spellings of options that have a value, and of those that have none. -/
structure Grammar where
  valued : List Text
  flags : List Text

/-- Options in their order, a flag having no value, and the other words. -/
structure Words where
  options : List (Text × Text) := []
  others : List Text := []

namespace Words

def addOption (w : Words) (name value : Text) : Words := { w with options := (name, value) :: w.options }

def addOther (w : Words) (word : Text) : Words := { w with others := word :: w.others }

/-- The value of the option that was spelled last in one of the given ways. -/
def last? (w : Words) (names : List String) : Option (Text × Text) :=
  (w.options.filter fun o => (names.map String.toList).contains o.1).getLast?

def value? (w : Words) (names : List String) : Option Text := (w.last? names).map (·.2)

def has (w : Words) (names : List String) : Bool := (w.last? names).isSome

/-- Which of two opposite flags was spelled last. -/
def choice? (w : Words) (on off : String) : Option Bool :=
  (w.last? [on, off]).map fun o => o.1 = on.toList

end Words

namespace Grammar

def isOption (word : Text) : Bool := word.head? = some '-' && 1 < word.length

/-- Letters behind one hyphen: the flags among them, and the option whose value follows with the
part of the value that is there. -/
def letters? (g : Grammar) : Text → Option (List Text × Option (Text × Text))
  | [] => some ([], none)
  | c :: r =>
    let name : Text := ['-', c]
    if g.flags.contains name then (letters? g r).map fun p => (name :: p.1, p.2)
    else if g.valued.contains name then some ([], some (name, r))
    else none

def addFlags (names : List Text) (w : Words) : Words :=
  names.foldr (fun name w => w.addOption name []) w

/-- Reads the words of a command; nothing if an option is unknown, lacks its value or has one too
many. -/
def read? (g : Grammar) : List Text → Option Words
  | [] => some {}
  | word :: rest =>
    if word = ['-', '-'] then some { others := rest }
    else if !isOption word then (read? g rest).map fun w => w.addOther word
    else
      let name := word.takeWhile (· ≠ '=')
      let given := word.drop name.length
      if name.length ≠ 2 && g.flags.contains name then
        if given.isEmpty then (read? g rest).map fun w => w.addOption name [] else none
      else if name.length ≠ 2 && g.valued.contains name then
        if !given.isEmpty then (read? g rest).map fun w => w.addOption name (given.drop 1)
        else match rest with
          | [] => none
          | value :: rest => (read? g rest).map fun w => w.addOption name value
      else if Text.startsWith ['-', '-'] word then none
      else match letters? g (word.drop 1) with
        | none => none
        | some (names, none) => (read? g rest).map (addFlags names)
        | some (names, some (name, value)) =>
          if !value.isEmpty then (read? g rest).map fun w => addFlags names (w.addOption name value)
          else match rest with
            | [] => none
            | value :: rest => (read? g rest).map fun w => addFlags names (w.addOption name value)

end Grammar

end Recast.Shell
