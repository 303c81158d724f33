import Recast.Proofs.Target.Numbers

/-! Where the files of types go. In each target language a numbered name leads to a place of its own,
and every place lies below the output of the project. -/
namespace Recast
open Text

namespace Target

/-- Every named type has a place of its own below the output of a project, whatever number its name
ends with; names are those of a class that types of the target language and simple names are in. -/
structure Spreads (t : Target) (package : Option Text) (Name : Text → Prop) : Prop where
  named : ∀ code name, t.mainType? code = some name → name ≠ [] → Name name
  simple : ∀ name, Naming.Simple name → Name name
  again : ∀ name i, Name name → Name (Namer.numbered name i)
  plain : ∀ source name, Name name → Path.Plain (t.output (t.space source name package) name)
  numbered : ∀ source name i j, Name name →
    t.output (t.space source (Namer.numbered name i) package) (Namer.numbered name i) =
      t.output (t.space source (Namer.numbered name j) package) (Namer.numbered name j) → i = j

theorem slash_notMem_packageOf {package : Option Text} (flat : ∀ p, package = some p → '/' ∉ p)
    (source : Path) : '/' ∉ packageOf source package := by
  intro inside
  rcases of_mem_join inside with point | ⟨p,member,found⟩
  · cases point with
    | tail _ none_ => cases none_
  · rcases List.mem_append.1 (List.mem_filter.1 member).1 with base | directory
    · cases package with
      | none => cases base
      | some given => exact flat given rfl (mem_of_mem_pieces (List.mem_filter.1 base).1 found)
    · obtain ⟨part,_,rfl⟩ := List.mem_map.1 directory
      exact Naming.slash_notMem_segment part found

theorem isName_of_mem_filled {space p : Text} (flat : '/' ∉ space)
    (member : p ∈ filled (pieces '.' space)) : Path.IsName p := by
  obtain ⟨inside,some_⟩ := List.mem_filter.1 member
  have points : '.' ∉ p := notMem_pieces inside
  exact ⟨⟨by simpa using some_,fun same => points (by simp [same]),
    fun slash => flat (mem_of_mem_pieces inside slash)⟩,fun same => points (by simp [same])⟩

/-- A file in a directory for each of some names. -/
theorem plain_ofParts {parts : List Text} (some_ : parts ≠ []) (fine : ∀ p ∈ parts, Path.IsName p) :
    Path.Plain (Path.ofParts parts).toText := by
  rw [Path.ofParts_of_isPart fun p member => (fine p member).1,Path.toText_relative some_]
  exact Path.plain_join some_ fine

theorem isName_of_mem_typeFile {extension space name : Text} (flat : '/' ∉ extension)
    (straight : '/' ∉ space) (simple : Naming.Simple name) :
    ∀ p ∈ filled (pieces '.' space) ++ [name ++ extension], Path.IsName p := by
  intro p member
  rcases List.mem_append.1 member with directory | last
  · exact isName_of_mem_filled straight directory
  · rw [List.mem_singleton.1 last]
    exact simple.isName flat

theorem plain_typeFile {extension space name : Text} (flat : '/' ∉ extension) (straight : '/' ∉ space)
    (simple : Naming.Simple name) : Path.Plain (typeFile extension space name) :=
  plain_ofParts (by simp) (isName_of_mem_typeFile flat straight simple)

theorem unhidden_typeFile {extension space name : Text} (flat : '/' ∉ extension) (straight : '/' ∉ space)
    (simple : Naming.Simple name) : ∀ p ∈ (Path.ofText (typeFile extension space name)).parts,
      p.head? ≠ some '.' := by
  have fine := isName_of_mem_typeFile flat straight simple
  have parts : (Path.ofText (typeFile extension space name)).parts =
      filled (pieces '.' space) ++ [name ++ extension] := by
    unfold typeFile
    rw [Path.ofParts_of_isPart fun p member => (fine p member).1,Path.toText_relative (by simp),
      Path.ofText_join (by simp) fun p member => (fine p member).1]
  rw [parts]
  intro p member first
  rcases List.mem_append.1 member with directory | last
  · exact notMem_pieces (List.mem_filter.1 directory).1 (List.mem_of_mem_head? first)
  · rw [List.mem_singleton.1 last] at first
    cases name with
    | nil => exact simple.filled rfl
    | cons d name =>
      have point : d = '.' := by simpa using first
      exact simple.points (by simp [point])

theorem spreads_blocks {name extension : Text} {package : Option Text} (symbols : Symbols)
    (flat : '/' ∉ extension) (straight : ∀ p, package = some p → '/' ∉ p) :
    (blocks name extension symbols).Spreads package Naming.Simple where
  named := fun _ _ found _ => .of_isIdentifier (isIdentifier_firstType found)
  simple := fun _ simple => simple
  again := fun _ i simple => simple.numbered i
  plain := fun source _ simple => plain_typeFile flat (slash_notMem_packageOf straight source) simple
  numbered := fun source name i j _ same => counts_blocks _ _ _ _ source name i j same

/-- The parser outside is one whose names of types are simple. -/
theorem spreads_packages {tree : Text → Node} {package : Option Text}
    (named : ∀ code name, (tree code).mainType? code = some name → name ≠ [] → Naming.Simple name)
    (straight : ∀ p, package = some p → '/' ∉ p) :
    (packages tree).Spreads package Naming.Simple where
  named := fun code name found filled => by
    change ((tree code).mainType? code).orElse (fun _ => firstType? code) = some name at found
    cases parsed : (tree code).mainType? code with
    | none =>
      rw [parsed] at found
      exact .of_isIdentifier (isIdentifier_firstType found)
    | some other =>
      rw [parsed] at found
      cases found
      exact named code _ parsed filled
  simple := fun _ simple => simple
  again := fun _ i simple => simple.numbered i
  plain := fun source _ simple =>
    plain_typeFile (by decide) (slash_notMem_packageOf straight source) simple
  numbered := fun source name i j _ same => counts_packages _ _ source name i j same

theorem spreads_modules (parser : ModuleParser) {package : Option Text}
    (straight : ∀ p, package = some p → '/' ∉ p) :
    (modules parser).Spreads package fun _ => True where
  named := fun _ _ _ _ => trivial
  simple := fun _ _ => trivial
  again := fun _ _ _ => trivial
  plain := fun source name _ => by
    rw [output_modules]
    exact plain_typeFile (by decide) (slash_notMem_packageOf straight source) (Naming.simple_snake name)
  numbered := fun source name i j _ same => counts_modules parser package source name i j same

end Target

end Recast
