import Recast.Proofs.Rename.Requalification
import Recast.Proofs.Rename.Words

/-! Modules that can be named in an import. The directories of a file and the parts of the base package always
can. The module itself can unless a digit is the first thing in its name, low lines left aside: these go when
the name is put in small letters, and nothing then keeps the digit from the first place. -/
namespace Recast
open Text

namespace Naming

/-- No digit comes first behind the low lines that a name begins with. -/
def Lettered (name : Text) : Prop := (name.dropWhile (· = '_')).head?.all fun c => !c.isDigit

instance (name : Text) : Decidable (Lettered name) := by unfold Lettered; infer_instance

theorem words_separateWords {name : Text} (words : ∀ c ∈ name, isAsciiWord c = true)
    (before : Option Char) : ∀ c ∈ separateWords before name, isAsciiWord c = true := by
  induction name generalizing before with
  | nil => exact words
  | cons c name ih =>
    have later := ih (fun d member => words d (by simp [member])) (some c)
    intro d member
    unfold separateWords at member
    rcases List.mem_append.1 member with mark | inside
    · split at mark
      · rw [List.mem_singleton.1 mark]
        rfl
      · cases mark
    · rcases List.mem_cons.1 inside with rfl | within_
      · exact words d (by simp)
      · exact later d within_

/-- Low lines that separate words change nothing about what comes first behind all low lines. -/
theorem head?_separateWords (before : Option Char) (name : Text) :
    ((separateWords before name).dropWhile (· = '_')).head? = (name.dropWhile (· = '_')).head? := by
  induction name generalizing before with
  | nil => rfl
  | cons c name ih =>
    by_cases low : c = '_'
    · have small : c.isUpper = false := by rw [low]; rfl
      unfold separateWords
      simp only [small,Bool.false_and,Bool.false_eq_true,if_false,List.nil_append]
      rw [List.dropWhile_cons_of_pos (by simpa using low),List.dropWhile_cons_of_pos (by simpa using low),ih]
    · unfold separateWords
      dsimp only
      split
      · rw [List.singleton_append,List.dropWhile_cons_of_pos (by simp),
          List.dropWhile_cons_of_neg (by simpa using low),List.dropWhile_cons_of_neg (by simpa using low)]
        rfl
      · rw [List.nil_append,List.dropWhile_cons_of_neg (by simpa using low),
          List.dropWhile_cons_of_neg (by simpa using low)]
        rfl

theorem head?_dropEndWhile {p : Char → Bool} {s : Text} (first : ∀ c, s.head? = some c → p c = false) :
    (dropEndWhile p s).head? = s.head? := by
  cases s with
  | nil => rfl
  | cons c s =>
    have whole := dropEndWhile_append_takeEndWhile p (c :: s)
    cases kept : dropEndWhile p (c :: s) with
    | nil =>
      have all := List.dropWhile_eq_nil_iff.1 (List.reverse_eq_nil_iff.1 kept)
      exact absurd (all c (by simp)) (by simp [first c rfl])
    | cons d t =>
      rw [kept] at whole
      rw [List.head?_cons,List.head?_cons,(List.cons.inj whole).1]

theorem isNameStart_toLower {c : Char} (word : isAsciiWord c = true) (other : c ≠ '_') :
    Target.isNameStart c.toLower = !c.isDigit := by
  unfold Target.isNameStart
  cases digit : c.isDigit with
  | true =>
    rw [toLower_of_not (by simp [not_isUpper_of_isDigit digit])]
    have bounds := isDigit_iff.1 digit
    have letter : c.isAlpha = false := by
      rw [Bool.eq_false_iff,ne_eq,isAlpha_iff,isUpper_iff,isLower_iff]
      omega
    simp [letter,other]
  | false =>
    have letter : c.isAlpha = true := by simpa [isAsciiWord,Char.isAlphanum,digit,other] using word
    have lowered : c.toLower.isAlpha = true := by
      rcases isAlpha_iff.1 letter with capital | small
      · exact isAlpha_iff.2 (.inr (isLower_toLower capital))
      · rwa [toLower_of_not fun capital => by rw [isUpper_iff] at capital; rw [isLower_iff] at small; omega]
    simp [lowered]

/-- The name in small letters is an identifier unless its first letter is a digit. -/
theorem isIdentifier_snake_iff {name : Text} (words : ∀ c ∈ name, isAsciiWord c = true) :
    isIdentifier (snake name) = true ↔ Lettered name := by
  have separated := words_separateWords words none
  have first := head?_separateWords none name
  unfold snake Lettered trimLowLines
  rw [squeeze_words separated,← first]
  generalize separateWords none name = t at separated
  have begins : ∀ c, (t.dropWhile (· = '_')).head? = some c → (c = '_' : Bool) = false := by
    intro c head
    have other := List.head?_dropWhile_not (· = '_') t
    rw [head] at other
    simpa using other
  rw [← head?_dropEndWhile begins]
  have inside : ∀ c ∈ dropEndWhile (· = '_') (t.dropWhile (· = '_')), isAsciiWord c = true :=
    fun c member => separated c (List.dropWhile_sublist _ |>.subset (mem_of_mem_dropEndWhile member))
  rw [← head?_dropEndWhile begins] at begins
  generalize dropEndWhile (· = '_') (t.dropWhile (· = '_')) = u at inside begins
  cases u with
  | nil => decide -- A name of low lines only has another one in its place.
  | cons c r =>
    have start := isNameStart_toLower (inside c (by simp)) (by simpa using begins c rfl)
    have rest : ∀ d ∈ (c :: r).map Char.toLower, isAsciiWord d = true := by
      intro d member
      obtain ⟨e,there,rfl⟩ := List.mem_map.1 member
      exact word_toLower (inside e there)
    rw [isIdentifier_iff]
    change IsRun Target.isNameStart isAsciiWord ((c :: r).map Char.toLower) ↔ (!c.isDigit) = true
    rw [← start]
    exact ⟨fun run => run.begins,fun begins => ⟨begins,rest⟩⟩

end Naming

/-- Every part of a dotted name is an identifier. -/
def Importable (space : Text) : Prop := ∀ part ∈ pieces '.' space, Naming.isIdentifier part = true

instance (space : Text) : Decidable (Importable space) := by unfold Importable; infer_instance

namespace Target

theorem pieces_dotted {package module : Text} {parts : List Text} (same : package = join ['.'] parts)
    (identifiers : ∀ part ∈ parts, Naming.isIdentifier part = true) (flat : '.' ∉ module) :
    pieces '.' (dotted package module) = parts ++ [module] := by
  unfold dotted
  cases parts with
  | nil =>
    subst same
    exact pieces_of_notMem flat
  | cons first rest =>
    have filled : package ≠ [] := by
      obtain ⟨c,inside⟩ :=
        List.exists_mem_of_ne_nil first (Naming.Simple.of_isIdentifier (identifiers first (by simp))).filled
      exact List.ne_nil_of_mem (same ▸ mem_join ['.'] (by simp) inside)
    rw [if_neg (by simpa using filled),pieces_append,pieces_of_notMem flat,same,
      pieces_join (by simp) fun part member =>
        (Naming.Simple.of_isIdentifier (identifiers part member)).points]

variable {source : Text} {package : Option Text}

/-- What comes before the module is made of identifiers, and the module is the name in small letters. -/
theorem pieces_space (parser : ModuleParser) (name : Text) (ascii : ∀ c ∈ source, c.toNat < 128)
    (identifiers : ∀ p, package = some p → ∀ part ∈ pieces '.' p, Naming.isIdentifier part = true) :
    ∃ parts, (∀ part ∈ parts, Naming.isIdentifier part = true) ∧
      pieces '.' ((modules parser).space (.ofText source) name package) = parts ++ [Naming.snake name] := by
  obtain ⟨parts,same,all⟩ := packageOf_shape ascii identifiers
  exact ⟨parts,all,pieces_dotted same all (Naming.simple_snake name).points⟩

theorem importable_iff_lettered (parser : ModuleParser) {name : Text} (ascii : ∀ c ∈ source, c.toNat < 128)
    (identifiers : ∀ p, package = some p → ∀ part ∈ pieces '.' p, Naming.isIdentifier part = true)
    (words : ∀ c ∈ name, isAsciiWord c = true) :
    Importable ((modules parser).space (.ofText source) name package) ↔ Naming.Lettered name := by
  obtain ⟨parts,all,same⟩ := pieces_space parser name ascii identifiers
  unfold Importable
  rw [same,← Naming.isIdentifier_snake_iff words]
  constructor
  · exact fun whole => whole _ (by simp)
  · intro last part member
    rcases List.mem_append.1 member with before | here
    · exact all part before
    · rwa [List.mem_singleton.1 here]

end Target

/-- The entry of a file with an ASCII path, whose type is to be called by an identifier. -/
structure Entry.Lodged (parser : ModuleParser) (package : Option Text) (e : Entry) : Prop where
  source : ∀ c ∈ e.source, c.toNat < 128
  new : Naming.isIdentifier e.new = true
  space : e.space = (Target.modules parser).space (.ofText e.source) e.new package

namespace FromImport

/-- The import names a module and takes names from it, all of them spelled as identifiers. -/
structure Spelled (s : FromImport) : Prop where
  module : ∃ m, s.module = some m ∧ Importable m
  level : s.level = 0
  filled : s.names ≠ []
  names : ∀ n ∈ s.names, Naming.isIdentifier n.name = true

variable {s : FromImport} {x : NameIndex} {parser : ModuleParser} {package : Option Text}

theorem mem_of_movedTo? {n : ImportedName} {e : Entry} (moved : s.movedTo? x n = some e) : e ∈ x.all :=
  (movedTo?_cases moved).1.elim NameIndex.mem_of_resolveDotted? fun bare => (NameIndex.mem_of_resolve? bare).1

/-- The import of what moved to a module is spelled well where the module's name is. -/
theorem spelled_part_iff (lodged : ∀ e ∈ x.all, e.Lodged parser package) {n : ImportedName} {e : Entry}
    (member : n ∈ s.names) (moved : s.movedTo? x n = some e) :
    (s.part x (some e.space)).Spelled ↔ Importable e.space := by
  refine ⟨fun spelled => ?_,fun importable => ⟨⟨_,rfl,importable⟩,rfl,?_,fun m inside => ?_⟩⟩
  · obtain ⟨m,same,importable⟩ := spelled.module
    cases same
    exact importable
  · have home : s.home? x n = some e.space := by unfold home?; rw [moved]; rfl
    refine List.ne_nil_of_mem (List.mem_map_of_mem (List.mem_filter.2 ⟨member,?_⟩))
    simpa using home
  · obtain ⟨k,there,rfl⟩ := List.mem_map.1 inside
    have home : s.home? x k = some e.space := by simpa using (List.mem_filter.1 there).2
    obtain ⟨d,found,_⟩ := Option.map_eq_some_iff.1 home
    unfold renewed
    rw [found]
    exact (lodged d (mem_of_movedTo? found)).new

end FromImport

namespace Target

/-- Of a file with an ASCII path, below a base package that is made of identifiers, the module can be named in
an import exactly if no digit comes first in its name, low lines left aside. The statements that an import
gives way to keep what stays as it is; each of the others, and each name that moved has one, is spelled well
under the same condition on the name that it asks for. -/
theorem importable_space_iff (parser : ModuleParser) (source name : Text) (package : Option Text)
    (ascii : ∀ c ∈ source, c.toNat < 128)
    (identifiers : ∀ p, package = some p → ∀ part ∈ pieces '.' p, Naming.isIdentifier part = true)
    (identifier : Naming.isIdentifier name = true) :
    (∃ parts, (∀ part ∈ parts, Naming.isIdentifier part = true) ∧
      pieces '.' ((modules parser).space (.ofText source) name package) = parts ++ [Naming.snake name]) ∧
    (Importable ((modules parser).space (.ofText source) name package) ↔ Naming.Lettered name) ∧
    ∀ (s : FromImport) (x : NameIndex) (ss : List FromImport),
      (∀ e ∈ x.all, e.Lodged parser package) → s.requalify? x = some ss →
      (∀ t ∈ ss, (t.module = s.module ∧ t.level = s.level ∧ t.names ≠ [] ∧ t.names ⊆ s.names) ∨
        ∃ n ∈ s.names, ∃ e, s.movedTo? x n = some e ∧ t.module = some e.space ∧
          (t.Spelled ↔ Naming.Lettered e.new)) ∧
      ∀ n ∈ s.names, ∀ e, s.movedTo? x n = some e → ∃ t ∈ ss, t.module = some e.space ∧
        { n with name := e.new } ∈ t.names ∧ (t.Spelled ↔ Naming.Lettered e.new) := by
  refine ⟨pieces_space parser name ascii identifiers,
    importable_iff_lettered parser ascii identifiers (Naming.words_of_isIdentifier identifier),
    fun s x ss lodged new => ?_⟩
  have spelled {n : ImportedName} {e : Entry} (member : n ∈ s.names) (moved : s.movedTo? x n = some e) :
      (s.part x (some e.space)).Spelled ↔ Naming.Lettered e.new := by
    have entry := lodged e (FromImport.mem_of_movedTo? moved)
    rw [FromImport.spelled_part_iff lodged member moved,entry.space]
    exact importable_iff_lettered parser entry.source identifiers (Naming.words_of_isIdentifier entry.new)
  obtain ⟨homes,_,used,rfl⟩ := FromImport.requalify?_parts new
  refine ⟨fun t member => ?_,fun n member e moved => ?_⟩
  · obtain ⟨home,inside,rfl⟩ := List.mem_map.1 member
    obtain ⟨n,there,same⟩ := (used home).1 inside
    cases home with
    | none =>
      refine .inl ⟨rfl,rfl,?_,List.filter_sublist.subset⟩
      exact List.ne_nil_of_mem (List.mem_filter.2 ⟨there,by simpa using same⟩)
    | some space =>
      obtain ⟨e,moved,rfl⟩ := Option.map_eq_some_iff.1 same
      exact .inr ⟨n,there,e,moved,rfl,spelled there moved⟩
  · have home : s.home? x n = some e.space := by unfold FromImport.home?; rw [moved]; rfl
    refine ⟨_,List.mem_map_of_mem ((used _).2 ⟨n,member,home⟩),rfl,?_,spelled member moved⟩
    refine List.mem_map.2 ⟨n,List.mem_filter.2 ⟨member,by simpa using home⟩,?_⟩
    unfold FromImport.renewed
    rw [moved]

theorem small_of_all {s : Text} (small : (s.all fun c => c.toNat < 128) = true) : ∀ c ∈ s, c.toNat < 128 :=
  fun c member => of_decide_eq_true (List.all_eq_true.1 small c member)

/-- Of two names that moved to modules, the one with a letter is taken from a module that can be named. -/
theorem importable_space_iff_server :
    let parser := Namer.noParsers.module
    let package : Option Text := some "app".toList
    let source (stem : String) : Text := ("web/" ++ stem ++ ".src").toList
    let lodged (stem name : String) : Registered := {
      entry := {
        old := name.toList, new := name.toList, source := source stem, output := []
        space := (modules parser).space (.ofText (source stem)) name.toList package } }
    let x : NameIndex := { registered := [lodged "HTTPServer" "HTTPServer",lodged "2" "_2"] }
    let s : FromImport := ⟨some "a".toList,0,[⟨"HTTPServer",none⟩,⟨"_2",none⟩]⟩
    let ss : List FromImport := [⟨some "app.web.http_server".toList,0,[⟨"HTTPServer",none⟩]⟩,
      ⟨some "app.web.2".toList,0,[⟨"_2",none⟩]⟩]
    Importable "app.web.http_server" ∧ s.requalify? x = some ss ∧
      ∃ t ∈ ss, t.module = some "app.web.http_server".toList ∧ t.Spelled := by
  intro parser package source lodged x s ss
  have new : s.requalify? x = some ss := by decide +kernel
  have identifiers : ∀ p, package = some p → ∀ part ∈ pieces '.' p, Naming.isIdentifier part = true := by
    intro p same
    rw [← Option.some.inj same]
    decide
  obtain ⟨_,importable,imports⟩ := importable_space_iff parser (source "HTTPServer") "HTTPServer" package
    (small_of_all (by decide)) identifiers (by decide)
  have all : ∀ e ∈ x.all, e.Lodged parser package := by
    intro e member
    rcases List.mem_cons.1 member with rfl | later
    · exact ⟨small_of_all (by decide),by decide,rfl⟩
    · rw [List.mem_singleton.1 later]
      exact ⟨small_of_all (by decide),by decide,rfl⟩
  obtain ⟨t,member,module,_,spelled⟩ := (imports s x ss all new).2 ⟨"HTTPServer",none⟩ (by simp [s])
    (lodged "HTTPServer" "HTTPServer").entry (by decide +kernel)
  exact ⟨importable.2 (by decide),new,t,member,module,spelled.2 (by decide)⟩

/-- A file whose name begins with a digit: the low line that keeps the digit from the first place of the
type's name is missing in the module, and an import of the type cannot name it. -/
theorem importable_space_digit :
    let source : Text := "2fast.java".toList
    let name : Text := Naming.pascal "2fast"
    let n : Namer := ⟨.modules Namer.noParsers.module,none,none⟩
    let s : FromImport := ⟨some "a".toList,0,[⟨"_2fast",none⟩]⟩
    let t : FromImport := ⟨some "2fast".toList,0,[⟨"_2fast",none⟩]⟩
    (∀ c ∈ source, c.toNat < 128) ∧ Naming.isIdentifier name = true ∧
      ¬ Importable (n.target.space (.ofText source) name none) ∧
      (∃ x line, (n.index [(source,[])]).run.run {} = (.ok x,line) ∧ s.requalify? x = some [t]) ∧
      ¬ t.Spelled := by
  intro source name n s t
  have ran : (match ((n.index [(source,[])]).run.run {}).1 with
    | .ok x => s.requalify? x
    | .error _ => none) = some [t] := by decide +kernel
  refine ⟨small_of_all (by decide),by decide +kernel,by decide +kernel,?_,fun spelled => ?_⟩
  · cases same : (n.index [(source,[])]).run.run {} with
    | mk r line =>
      rw [same] at ran
      cases r with
      | ok x => exact ⟨x,line,rfl,ran⟩
      | error e => cases ran
  · obtain ⟨m,same,importable⟩ := spelled.module
    cases same
    exact absurd importable (by decide)

end Target

end Recast
