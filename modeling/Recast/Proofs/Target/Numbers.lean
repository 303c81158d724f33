import Recast.Proofs.Path
import Recast.Proofs.Target.Naming
import Recast.Target.Registry

/-! Numbers at the ends of names. Whatever the name, its extension and its namespace are, different
numbers lead to different files in each target language. -/
namespace Recast
open Text

namespace Target

/-- The last part of a path tells paths apart that have all other parts in common. -/
theorem ofParts_last {parts : List Text} {p q : Text} (part : Path.IsPart p) (other : Path.IsPart q)
    (same : (Path.ofParts (parts ++ [p])).toText = (Path.ofParts (parts ++ [q])).toText) : p = q := by
  obtain ⟨front,ends⟩ := Path.toText_last (Path.ofParts parts).root (Path.ofParts parts).parts
  rw [Path.ofParts_append,Path.ofParts_append,Path.child_part part,Path.child_part other,ends,ends] at same
  exact List.append_cancel_left same

theorem ofParts_filled (parts : List Text) : Path.ofParts (filled parts) = Path.ofParts parts := by
  have empty (q : Path) : q.child [] = q := by
    change (⟨q.root,q.parts ++ []⟩ : Path) = q
    rw [List.append_nil]
  have all (q : Path) : (filled parts).foldl Path.child q = parts.foldl Path.child q := by
    induction parts generalizing q with
    | nil => rfl
    | cons p rest ih =>
      cases p with
      | nil =>
        change (filled rest).foldl Path.child q = _
        rw [ih,List.foldl_cons,empty]
      | cons c p =>
        change (filled rest).foldl Path.child (q.child (c :: p)) = _
        rw [ih,List.foldl_cons]
  exact all ⟨[],[]⟩

/-- A module stands in a file of its name, in a directory for each part of its package. -/
theorem output_modules (parser : ModuleParser) (source : Path) (name : Text) (package : Option Text) :
    (modules parser).output ((modules parser).space source name package) name =
      typeFile ".py" (packageOf source package) (Naming.snake name) := by
  have simple := Naming.simple_snake name
  have word := pieces_of_notMem simple.points
  have parts : filled (pieces '.' (dotted (packageOf source package) (Naming.snake name))) =
      filled (pieces '.' (packageOf source package)) ++ [Naming.snake name] := by
    have some_ : filled [Naming.snake name] = [Naming.snake name] := by
      simp [filled,simple.filled]
    unfold dotted
    split
    · rename_i empty
      rw [List.isEmpty_iff.1 empty,word,some_]
      rfl
    · rw [pieces_append,word]
      unfold filled at some_ ⊢
      rw [List.filter_append,some_]
  obtain ⟨front,ends⟩ := Path.toText_last
    (Path.ofParts (filled (pieces '.' (packageOf source package)))).root
    (Path.ofParts (filled (pieces '.' (packageOf source package)))).parts
  change (Path.ofParts (pieces '.' (dotted (packageOf source package) (Naming.snake name)))).toText ++ _ = _
  unfold typeFile
  rw [← ofParts_filled (pieces '.' _),parts,Path.ofParts_append,Path.ofParts_append,
    Path.child_part (simple.isName (by decide)).1,← List.append_nil (Naming.snake name),
    Path.child_part (simple.isName (by simp)).1,ends,ends]
  simp

/-- Different numbers behind a name lead to different files. -/
def Counts (t : Target) (package : Option Text) : Prop :=
  ∀ source name i j,
    t.output (t.space source (Namer.numbered name i) package) (Namer.numbered name i) =
      t.output (t.space source (Namer.numbered name j) package) (Namer.numbered name j) → i = j

theorem slash_notMem_ofNat (i : Nat) : '/' ∉ Numeral.ofNat i :=
  fun inside => absurd (Naming.words_ofNat i _ inside) (by decide)

theorem typeFile_numbered {extension space name : Text} {i j : Nat}
    (same : typeFile extension space (Namer.numbered name i) =
      typeFile extension space (Namer.numbered name j)) : i = j := by
  obtain ⟨front,back,written⟩ := Path.child_around (Path.ofParts (filled (Text.pieces '.' space))) name extension
  have file (k : Nat) : typeFile extension space (Namer.numbered name k) =
      front ++ (Numeral.ofNat k ++ back) := by
    unfold typeFile Namer.numbered
    rw [Path.ofParts_append,List.append_assoc,List.cons_append,written _ (slash_notMem_ofNat k)]
  rw [file,file] at same
  exact Numeral.ofNat_injective (List.append_cancel_right (List.append_cancel_left same))

theorem counts_blocks (name extension : Text) (symbols : Symbols) (package : Option Text) :
    (blocks name extension symbols).Counts package := fun _ _ _ _ same => typeFile_numbered same

theorem counts_packages (tree : Text → Node) (package : Option Text) :
    (packages tree).Counts package := fun _ _ _ _ same => typeFile_numbered same

theorem counts_modules (parser : ModuleParser) (package : Option Text) :
    (modules parser).Counts package := by
  intro source name i j same
  obtain ⟨front,ends⟩ := Naming.snake_numbered name
  rw [output_modules,output_modules] at same
  have last := ofParts_last ((Naming.simple_snake _).isName (by decide)).1
    ((Naming.simple_snake _).isName (by decide)).1 same
  rw [ends,ends] at last
  exact Numeral.ofNat_injective (List.append_cancel_left (List.append_cancel_right last))

end Target

/-- Every target language that a project can have tells numbers apart. -/
theorem Registry.counts_target (r : Registry) (parsers : Parsers) (language : Text)
    (settings : Option LanguageSettings) (package : Option Text) :
    (r.target parsers language settings).Counts package := by
  have blocks (key : Text) (given : Option LanguageSettings) :
      (Dialect.blockTarget key given).Counts package := by
    cases given <;> exact Target.counts_blocks _ _ _ _
  unfold target
  split
  · rename_i dialect _
    cases dialect with
    | blocks => exact blocks "generic" none
    | modules => exact Target.counts_modules parsers.module package
    | packages => exact Target.counts_packages parsers.tree package
  · exact blocks (key language) settings

end Recast
