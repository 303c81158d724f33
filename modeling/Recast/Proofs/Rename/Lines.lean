import Mathlib.Data.List.Find
import Recast.Proofs.Rename.Words

/-! A renaming goes through a file line by line. Where block symbols are all that is known of the target
language, each line is changed by itself, its words only, and stays one line. -/
namespace Recast
open Text

namespace Renaming

/-- What becomes of a name. -/
def given (renames : List (Text × Text)) (name : Text) : Text :=
  match renames.find? fun r => r.1 == name with
  | some r => r.2
  | none => name

private theorem substituteFrom_skip (renames : List (Text × Text)) {w s : Text} (words : ∀ c ∈ w, isNameChar c = true) :
    substituteFrom renames w.length true (w ++ s) = substituteFrom renames 0 true s := by
  induction w with
  | nil => rfl
  | cons c w ih =>
    rw [List.length_cons,List.cons_append,substituteFrom,words c (by simp)]
    exact ih fun d member => words d (by simp [member])

private theorem substituteFrom_rest (renames : List (Text × Text)) {w s : Text} (words : ∀ c ∈ w, isNameChar c = true) :
    substituteFrom renames 0 true (w ++ s) = w ++ substituteFrom renames 0 true s := by
  induction w with
  | nil => rfl
  | cons c w ih =>
    have tail := ih fun d member => words d (by simp [member])
    rw [List.cons_append,substituteFrom,words c (by simp),tail]
    rfl

theorem isNameChar_of_isBlank {c : Char} (white : isBlank c = true) : isNameChar c = false := by
  have other : c ≠ '$' := fun same => by subst same; exact absurd white (by decide)
  simp [isNameChar,isWord_of_isBlank white,other]

theorem isReturnOrFeed_of_mem_ending {line : Text} {c : Char} (member : c ∈ ending line) :
    isReturnOrFeed c = true :=
  List.all_eq_true.1 List.all_takeWhile c (List.mem_reverse.1 member)

theorem isNameChar_of_isAsciiWord {c : Char} (word : isAsciiWord c = true) : isNameChar c = true := by
  unfold isNameChar
  rw [isWord_of_isAsciiWord word]
  rfl

theorem isRun_of_isIdentifier {s : Text} (identifier : Naming.isIdentifier s = true) :
    IsRun isNameChar isNameChar s := by
  have words := Naming.words_of_isIdentifier identifier
  refine ⟨?_,fun c member => isNameChar_of_isAsciiWord (words c member)⟩
  cases s with
  | nil => cases identifier
  | cons c r => exact isNameChar_of_isAsciiWord (words c (by simp))

theorem isNameChar_of_mem_ending {line : Text} {c : Char} (member : c ∈ ending line) :
    isNameChar c = false := by
  have feed := isReturnOrFeed_of_mem_ending member
  unfold isReturnOrFeed at feed
  simp only [Bool.or_eq_true,decide_eq_true_eq] at feed
  rcases feed with rfl | rfl <;> decide

/-- No name goes beyond the end of the text. -/
def Ends (s : Text) : Prop := s = [] ∨ ∃ t c, s = t ++ [c] ∧ isNameChar c = false

theorem Ends.append {s t : Text} (left : Ends s) (right : Ends t) : Ends (s ++ t) := by
  rcases right with rfl | ⟨front,c,rfl,plain⟩
  · rwa [List.append_nil]
  · exact .inr ⟨s ++ front,c,by simp,plain⟩

theorem ends_ending (line : Text) : Ends (ending line) := by
  rcases List.eq_nil_or_concat (ending line) with empty | ⟨front,c,shape⟩
  · exact .inl empty
  · exact .inr ⟨front,c,by simpa using shape,isNameChar_of_mem_ending (show c ∈ ending line by simp [shape])⟩

theorem substitute_nil (s : Text) : substitute [] s = s := by
  have all (inside : Bool) : substituteFrom [] 0 inside s = s := by
    induction s generalizing inside with
    | nil => simp [substituteFrom,here?]
    | cons c r ih => simp [substituteFrom,here?,ih]
  exact all false

/-- Lines with the new names, but for those that declare a package or import something. -/
def nameLine (renames : List (Text × Text)) (line : Text) : Text :=
  if Target.isStructural line then line else substitute renames line

theorem given_cases (renames : List (Text × Text)) (w : Text) :
    given renames w = w ∨ (w,given renames w) ∈ renames := by
  unfold given
  cases found : renames.find? fun r => r.1 == w with
  | none => exact .inl rfl
  | some r =>
    have same : r.1 = w := by simpa using List.find?_some found
    exact .inr (same ▸ List.mem_of_find?_eq_some found)

section
variable {renames : List (Text × Text)} (named : ∀ r ∈ renames, IsRun isNameChar isNameChar r.1)
include named

/-- A name stands where a run is that name. -/
theorem here?_run {w s : Text} (run : IsRun isNameChar isNameChar w)
    (ended : s.head?.any isNameChar = false) :
    here? renames (w ++ s) = renames.find? fun r => r.1 == w := by
  unfold here?
  refine List.find?_congr fun r member => ?_
  rw [Bool.eq_iff_iff]
  simp only [Bool.and_eq_true,Bool.not_eq_true',List.isPrefixOf_iff_prefix,beq_iff_eq]
  constructor
  · rintro ⟨⟨more,whole⟩,free⟩
    -- A shorter name would end inside of the run, and a longer one would go on behind its end.
    rcases List.append_eq_append_iff.1 whole with ⟨rest,word,tail⟩ | ⟨past,word,tail⟩
    · rw [word,List.append_assoc,List.drop_left] at free
      cases rest with
      | nil => simpa using word.symm
      | cons d rest =>
        rw [List.cons_append,List.head?_cons,Option.any_some,run.all d (by simp [word])] at free
        cases free
    · cases past with
      | nil => simpa using word
      | cons d past =>
        rw [tail,List.cons_append,List.head?_cons,Option.any_some,(named r member).all d (by simp [word])] at ended
        cases ended
  · rintro rfl
    exact ⟨List.prefix_append _ _,by rwa [List.drop_left]⟩

theorem here?_other {s : Text} (plain : s.head?.any isNameChar = false) : here? renames s = none := by
  refine List.find?_eq_none.2 fun r member found => ?_
  simp only [Bool.and_eq_true,List.isPrefixOf_iff_prefix] at found
  obtain ⟨more,whole⟩ := found.1
  obtain ⟨begins,_⟩ := named r member
  cases key : r.1 with
  | nil => simp [key] at begins
  | cons d rest =>
    rw [key] at begins whole
    rw [← whole] at plain
    exact Bool.false_ne_true (plain.symm.trans begins)

/-- Behind the end of a run nothing depends on the character before. -/
theorem substituteFrom_inside {s : Text} (plain : s.head?.any isNameChar = false) (inside : Bool) :
    substituteFrom renames 0 inside s = substitute renames s := by
  have none_ := here?_other named plain
  unfold substitute
  cases s with
  | nil => simp [substituteFrom,none_]
  | cons c r => simp [substituteFrom,none_]

theorem changesRuns_substitute :
    ChangesRuns isNameChar isNameChar (given renames) (substitute renames) where
  within_ := fun _ h => h
  nil := by
    have none_ : here? renames [] = none := here?_other named rfl
    simp [substitute,substituteFrom,none_]
  other := fun c s plain => by
    have none_ : here? renames (c :: s) = none := here?_other named (by simpa using plain)
    unfold substitute
    rw [substituteFrom,if_neg Bool.false_ne_true,none_]
    simp only [plain]
  run := fun w s run ended => by
    have found := here?_run named run ended
    have behind := substituteFrom_inside named ended true
    obtain ⟨begins,all⟩ := run
    cases w with
    | nil => cases begins
    | cons c w =>
      have words : ∀ d ∈ w, isNameChar d = true := fun d member => all d (by simp [member])
      rw [List.cons_append] at found ⊢
      unfold substitute given at *
      rw [substituteFrom,if_neg Bool.false_ne_true,found]
      cases held : renames.find? fun r => r.1 == c :: w with
      | none =>
        simp only [all c (by simp),substituteFrom_rest renames words,behind]
        rfl
      | some r =>
        obtain ⟨key,new⟩ := r
        have same : key = c :: w := by simpa using List.find?_some held
        subst same
        simp only [all c (by simp),substituteFrom_skip renames words,behind]

theorem substitute_append {s : Text} (ends : Ends s) (t : Text) :
    substitute renames (s ++ t) = substitute renames s ++ substitute renames t := by
  have changes := changesRuns_substitute named
  rcases ends with rfl | ⟨front,c,rfl,plain⟩
  · rw [changes.nil]
    rfl
  · rw [List.append_assoc]
    exact changes.append_after plain t

/-- What is outside of some lines is changed line by line. The text that is still to be changed when the
lines begin comes first. -/
theorem outside_lines (holds : Text → Bool) {ls : List Text} (lined : Lined ls) (front pending : Text)
    (ends : ls = [] ∨ Ends pending) :
    outside renames (front ++ (pending ++ ls.flatten)) front.length
        (Target.spansFrom holds (front.length + pending.length) ls) =
      substitute renames pending ++
        (ls.map fun line => if holds line then line else substitute renames line).flatten := by
  induction ls generalizing front pending with
  | nil => simp [Target.spansFrom,outside]
  | cons line rest ih =>
    have ended : Ends pending := ends.resolve_left (by simp)
    have size : front.length + (pending ++ line).length = front.length + pending.length + line.length := by
      simp [Nat.add_assoc]
    unfold Target.spansFrom
    dsimp only
    split
    · rename_i held
      have whole := dropEndWhile_append_takeEndWhile isReturnOrFeed line
      change dropEnding line ++ ending line = line at whole
      have silent : substitute renames (ending line) = ending line :=
        (changesRuns_substitute named).eq_self fun c => isNameChar_of_mem_ending
      have later := ih lined.tail (front ++ (pending ++ dropEnding line)) (ending line)
        (.inr (ends_ending line))
      rw [silent] at later
      generalize dropEnding line = body at whole later ⊢
      generalize ending line = ended_ at whole later
      subst whole
      have place : (front ++ (pending ++ body)).length + ended_.length =
          front.length + pending.length + (body ++ ended_).length := by simp [Nat.add_assoc]
      have stop : (front ++ (pending ++ body)).length = front.length + pending.length + body.length := by
        simp [Nat.add_assoc]
      have cut : front ++ (pending ++ ((body ++ ended_) :: rest).flatten) =
          (front ++ (pending ++ body)) ++ (ended_ ++ rest.flatten) := by simp
      have before : ((front ++ (pending ++ body)) ++ (ended_ ++ rest.flatten)).take
          (front.length + pending.length) = front ++ pending := by
        rw [← List.length_append,← List.append_assoc front,List.append_assoc (front ++ pending),List.take_left]
      rw [place] at later
      rw [outside,if_neg (by omega),cut,before,List.drop_left,← stop,List.take_left,later]
      have kept : (front ++ (pending ++ body)).drop (front.length + pending.length) = body := by
        rw [← List.length_append,← List.append_assoc,List.drop_left]
      simp [kept,held]
    · rename_i free
      have later := ih lined.tail front (pending ++ line) ?_
      · rw [size,substitute_append named ended] at later
        simpa [free] using later
      · by_cases more : rest = []
        · exact .inl more
        · obtain ⟨body,c,rfl,breaks⟩ := lined.ends more
          exact .inr (ended.append (.inr ⟨body,c,rfl,isNameChar_of_isBlank (isBlank_of_isBreak breaks)⟩))

end

end Renaming

namespace Target

/-- A line that declares a package or imports something, without its ending. -/
def restructureBody (own : Option Entry) (index : NameIndex) (body : Text) : Text :=
  match if ((own.map Entry.space).getD []).isEmpty then none else packageLine? body with
  | some (before,behind) => before ++ (own.map Entry.space).getD [] ++ behind
  | none => mapNames (renamed index) [] body

theorem restructureLine_eq (own : Option Entry) (index : NameIndex) (line : Text) :
    restructureLine own index line = if isStructural line then
      restructureBody own index (dropEnding line) ++ ending line else line := by
  unfold restructureLine restructureBody
  dsimp only
  rw [isStructural_dropEnding]
  cases isStructural line with
  | false => rfl
  | true =>
    simp only [Bool.not_true,Bool.false_eq_true,if_false,if_true]
    generalize (if ((own.map Entry.space).getD []).isEmpty then none
      else packageLine? (dropEnding line)) = found
    cases found <;> rfl

end Target

namespace NameIndex
open Renaming Target
variable {x : NameIndex}

/-- The old names of the entries are made of name characters, and none is empty. -/
def Spelled (x : NameIndex) : Prop := ∀ e ∈ x.all, e.old ≠ [] ∧ ∀ c ∈ e.old, isNameChar c = true

theorem Spelled.named (spelled : x.Spelled) (source : Text) :
    ∀ r ∈ longestFirst (x.renamesFor source), IsRun isNameChar isNameChar r.1 := by
  intro r member
  obtain ⟨e,inside,rfl,_⟩ := of_mem_renamesFor ((Ordered.sort_perm _ _).mem_iff.1 member)
  obtain ⟨filled,all⟩ := spelled e inside
  obtain ⟨c,rest,same⟩ := List.exists_cons_of_ne_nil filled
  exact ⟨by simpa [same] using all c (by simp [same]),all⟩

section
variable (olds : ∀ e ∈ x.all, Naming.isIdentifier e.old = true)
include olds

theorem spelled_of_identifiers : x.Spelled := fun e inside =>
  ⟨(isRun_of_isIdentifier (olds e inside)).ne_nil,(isRun_of_isIdentifier (olds e inside)).all⟩

/-- Old names become new ones line by line. -/
theorem identifiers_blocks (name extension : Text) (symbols : Symbols) (source code : Text) :
    identifiers (.blocks name extension symbols) x source code =
      some ((lines code).map (nameLine (longestFirst (x.renamesFor source)))).flatten := by
  have named := (spelled_of_identifiers olds).named source
  unfold identifiers
  dsimp only
  split
  · rename_i none_
    have empty : longestFirst (x.renamesFor source) = [] := by
      rw [List.isEmpty_iff.1 none_]
      rfl
    have kept : nameLine [] = id := by
      funext line
      unfold nameLine
      rw [substitute_nil,ite_self]
      rfl
    rw [empty,kept,List.map_id,flatten_lines]
  · have spans : (blocks name extension symbols).spans code =
        some (spansFrom isStructural 0 (lines code)) := rfl
    have outside_ := outside_lines named isStructural (lined_lines code) [] [] (.inr (.inl rfl))
    rw [(changesRuns_substitute named).nil] at outside_
    simp only [List.nil_append,List.length_nil,Nat.add_zero,flatten_lines] at outside_
    rw [spans,Option.map_some,outside_]
    rfl

end

variable (worded : x.Worded)
include worded

theorem Worded.named (source : Text) :
    ∀ r ∈ longestFirst (x.renamesFor source), IsRun isNameChar isNameChar r.1 :=
  (spelled_of_identifiers worded.olds).named source

theorem Worded.isIdentifier_renamed {w : Text} (identifier : Naming.isIdentifier w = true) :
    Naming.isIdentifier (renamed x w) = true := by
  unfold renamed
  cases found : x.resolve? w with
  | none => exact identifier
  | some e => exact worded.news e (mem_of_resolve? found).1

theorem Worded.respelled_mapNames (body : Text) :
    Respelled isDotted body (mapNames (renamed x) [] body) := by
  refine (changesRuns_mapNames (renamed x)).respelled (fun w run => .inr ?_) body
  have new := worded.isIdentifier_renamed (Naming.isIdentifier_iff.2 run)
  exact ⟨(Naming.isIdentifier_iff.1 new).ne_nil,fun c member => isDotted_of_isAsciiWord (run.all c member),
    fun c member => isDotted_of_isAsciiWord (Naming.words_of_isIdentifier new c member)⟩

theorem Worded.space_bySource? (source : Text) :
    ∀ c ∈ ((x.bySource? source).map Entry.space).getD [], isDotted c = true := by
  cases found : x.bySource? source with
  | none => simp
  | some e => exact worded.spaces e (of_bySource? found).1

theorem Worded.respelled_restructureBody (source body : Text) :
    Respelled isDotted body (restructureBody (x.bySource? source) x body) := by
  unfold restructureBody
  have space := worded.space_bySource? source
  generalize ((x.bySource? source).map Entry.space).getD [] = given at space
  split
  · rename_i before behind found
    split at found
    · cases found
    · rename_i filled
      obtain ⟨name,rfl,line⟩ := packageLine?_shape found
      rw [List.append_assoc]
      have named : name ≠ [] := fun empty => by
        have begins := line.begins
        rw [empty] at begins
        cases begins
      exact (Respelled.refl before).append
        (.change named (by simpa using filled) line.dotted space (.refl behind))
  · exact worded.respelled_mapNames body

theorem Worded.respelled_restructureLine (source line : Text) :
    Respelled isDotted line (restructureLine (x.bySource? source) x line) := by
  rw [restructureLine_eq]
  split
  · have changed := (worded.respelled_restructureBody source (dropEnding line)).append (.refl (ending line))
    rwa [dropEnding_append_ending] at changed
  · exact .refl line

theorem Worded.respelled_nameLine (source line : Text) :
    Respelled isDotted line (nameLine (longestFirst (x.renamesFor source)) line) := by
  unfold nameLine
  split
  · exact .refl line
  · refine (changesRuns_substitute (worded.named source)).respelled (fun w run => ?_) line
    rcases given_cases (longestFirst (x.renamesFor source)) w with same | renamed
    · exact .inl same
    · obtain ⟨e,inside,pair,_⟩ := of_mem_renamesFor ((Ordered.sort_perm _ _).mem_iff.1 renamed)
      obtain ⟨old,new⟩ := Prod.mk.inj pair
      have first := worded.olds e inside
      have second := worded.news e inside
      rw [← old] at first
      rw [← new] at second
      exact .inr ⟨(Naming.isIdentifier_iff.1 second).ne_nil,
        fun c member => isDotted_of_isAsciiWord (Naming.words_of_isIdentifier first c member),
        fun c member => isDotted_of_isAsciiWord (Naming.words_of_isIdentifier second c member)⟩

/-- What becomes of a line of a file. -/
def newLine (x : NameIndex) (source line : Text) : Text :=
  nameLine (longestFirst (x.renamesFor source)) (restructureLine (x.bySource? source) x line)

/-- What becomes of a file. -/
def newFile (x : NameIndex) (file : Text × Text) : Text × Text :=
  (file.1,((lines file.2).map (x.newLine file.1)).flatten)

/-- The new lines are lines again. -/
theorem Worded.lines_newLine (source code : Text) :
    lines ((lines code).map (x.newLine source)).flatten = (lines code).map (x.newLine source) := by
  have first := lines_respelled (fun _ => isBreak_of_isDotted) (worded.respelled_restructureLine source) code
  have second := lines_respelled (fun _ => isBreak_of_isDotted) (worded.respelled_nameLine source)
    ((lines code).map (restructureLine (x.bySource? source) x)).flatten
  rw [first,List.map_map] at second
  exact second

/-- A file is changed line by line. -/
theorem Worded.file_blocks (name extension : Text) (symbols : Symbols) (source code : Text) :
    Renaming.file (.blocks name extension symbols) x source code =
      some ((lines code).map (x.newLine source)).flatten := by
  have restructured := lines_respelled (fun _ => isBreak_of_isDotted)
    (worded.respelled_restructureLine source) code
  have structural_ : structural (.blocks name extension symbols) x source code =
      some ((lines code).map (restructureLine (x.bySource? source) x)).flatten := rfl
  unfold Renaming.file
  rw [structural_,Option.bind_some,identifiers_blocks worded.olds,restructured,List.map_map]
  rfl

theorem Worded.pass_blocks (name extension : Text) (symbols : Symbols)
    (files : List (Text × Text)) :
    pass (.blocks name extension symbols) x files = some ((sortedFiles files).map x.newFile,
      changed (sortedFiles files) ((sortedFiles files).map x.newFile)) := by
  have each (files : List (Text × Text)) :
      fileEach (.blocks name extension symbols) x files = some (files.map x.newFile) := by
    induction files with
    | nil => rfl
    | cons file rest ih =>
      obtain ⟨source,code⟩ := file
      rw [fileEach,worded.file_blocks,ih]
      rfl
  unfold Renaming.pass
  rw [each]
  rfl

end NameIndex

end Recast
