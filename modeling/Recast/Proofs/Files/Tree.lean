import Recast.Files.Tree
import Recast.Proofs.Path

/-! What becomes of a file when another one is written or removed, and where the files of plain paths
stand below a folder. -/
namespace Recast

namespace Key

theorem foldl_descend {parts : List Text} (onward : ['.','.'] ∉ parts) (k : Key) :
    parts.foldl descend k = k ++ parts := by
  induction parts generalizing k with
  | nil => simp
  | cons part rest ih =>
    have other : part ≠ ['.','.'] := fun same => onward (by rw [same]; exact List.mem_cons_self)
    have step : descend k part = k ++ [part] := by
      unfold descend
      rw [if_neg]
      simp [other]
    rw [List.foldl_cons,step,ih fun later => onward (List.mem_cons_of_mem _ later)]
    simp

/-- A plain path leads onward from a folder. -/
theorem ofPath_child {s : Text} (plain : Path.Plain s) (p : Path) :
    ofPath (p.child s) = ofPath p ++ (Path.ofText s).parts := by
  have shape : p.child s = ⟨p.root,p.parts ++ (Path.ofText s).parts⟩ := by
    unfold Path.child Path.append
    rw [plain.relative]
    rfl
  rw [shape]
  unfold ofPath
  dsimp only
  rw [List.foldl_append]
  exact foldl_descend plain.onward _

theorem child_inj {s t : Text} (plain : Path.Plain s) (other : Path.Plain t) {p : Path}
    (same : ofPath (p.child s) = ofPath (p.child t)) : s = t := by
  rw [ofPath_child plain,ofPath_child other] at same
  exact plain.same other (List.append_cancel_left same)

end Key

namespace Tree
variable {t later : Tree} {k : Key} {c : Content}

theorem file?_makeFolders (made : t.makeFolders k = .ok later) (other : Key) :
    later.file? other = t.file? other := by
  unfold makeFolders at made
  split at made
  · cases made
    rfl
  · split at made
    · cases made
    · split at made
      · cases made
      · cases made
        rfl

theorem file?_write (written : t.write k c = .ok later) (other : Key) :
    later.file? other = if other = k then some c else t.file? other := by
  unfold write at written
  split at written
  · cases written
  · cases written
    exact file?_put t k other c

theorem file?_place (placed : t.place k c = .ok later) (other : Key) :
    later.file? other = if other = k then some c else t.file? other := by
  unfold place at placed
  cases made : t.makeFolders k.dropLast with
  | error fault =>
    rw [made] at placed
    cases placed
  | ok between =>
    rw [made] at placed
    rw [file?_write placed,file?_makeFolders made]

theorem isFolder_of_mem (member : k ∈ t.folders) : t.isFolder k = true := by
  unfold isFolder
  rw [List.contains_iff_mem.2 member,Bool.or_true]

theorem isFolder_makeFolders (made : t.makeFolders k = .ok later) :
    later.isFolder k = true ∧ ∀ a, t.isFolder a = true → later.isFolder a = true := by
  unfold makeFolders at made
  split at made
  · rename_i there
    cases made
    exact ⟨there,fun _ h => h⟩
  · rename_i absent
    split at made
    · cases made
    · split at made
      · cases made
      · cases made
        constructor
        · have added : k ∈ (Key.above k ++ [k]).filter fun a => !t.isFolder a :=
            List.mem_filter.2 ⟨by simp,by simpa using absent⟩
          exact isFolder_of_mem (List.mem_append_right t.folders added)
        · intro a held
          simp only [isFolder,Bool.or_eq_true,List.contains_iff_mem] at held ⊢
          exact held.imp_right (List.mem_append_left _)

theorem isFolder_write (written : t.write k c = .ok later) :
    t.isFolder k.dropLast = true ∧ ∀ a, later.isFolder a = t.isFolder a := by
  unfold write blocked? at written
  split at written
  · cases written
  · rename_i free
    cases written
    refine ⟨?_,fun _ => rfl⟩
    by_cases there : t.isFolder k.dropLast = true
    · exact there
    · rw [Bool.not_eq_true] at there
      simp only [there] at free
      split at free
      · cases free
      · split at free
        · cases free
        · cases free

theorem isFolder_place (placed : t.place k c = .ok later) :
    later.isFolder k.dropLast = true ∧ ∀ a, t.isFolder a = true → later.isFolder a = true := by
  unfold place at placed
  cases made : t.makeFolders k.dropLast with
  | error fault =>
    rw [made] at placed
    cases placed
  | ok between =>
    rw [made] at placed
    obtain ⟨there,kept⟩ := isFolder_makeFolders made
    have same := (isFolder_write placed).2
    exact ⟨by rw [same,there],fun a held => by rw [same,kept a held]⟩

/-- A file whose folder is there is gone once it is removed. -/
theorem file?_removed (removed : t.remove k = .ok later) (folder : t.isFolder k.dropLast = true)
    (other : Key) : later.file? other = if other = k then none else t.file? other := by
  unfold remove at removed
  split at removed
  · rename_i missing
    unfold blocked? at missing
    rw [folder] at missing
    split at missing
    · cases missing
    · split at missing
      · cases missing
      · cases missing
  · cases removed
  · cases removed
    exact file?_erase t k other

theorem isFolder_remove (removed : t.remove k = .ok later) (a : Key) :
    later.isFolder a = t.isFolder a := by
  unfold remove at removed
  split at removed
  · cases removed
    rfl
  · cases removed
  · cases removed
    rfl

theorem file?_remove (removed : t.remove k = .ok later) {other : Key} (apart : other ≠ k) :
    later.file? other = t.file? other := by
  unfold remove at removed
  split at removed
  · cases removed
    rfl
  · cases removed
  · cases removed
    rw [file?_erase,if_neg apart]

theorem file?_remove_none (removed : t.remove k = .ok later) {other : Key} (absent : t.file? other = none) :
    later.file? other = none := by
  unfold remove at removed
  split at removed
  · cases removed
    exact absent
  · cases removed
  · cases removed
    rw [file?_erase,absent,ite_self]

theorem isFile_of_readText {s : Text} (told : t.readText k = .ok s) : t.isFile k = true := by
  unfold readText read at told
  unfold isFile
  cases held : t.file? k with
  | some c => rfl
  | none =>
    rw [held] at told
    cases told

/-- A file that holds a text is read as that text, every line ending being a line feed. -/
theorem readText_of_file? {s : Text} (held : t.file? k = some (.text s)) :
    t.readText k = .ok (Text.plainFeeds s) := by
  unfold readText read
  rw [held]
  rfl

end Tree

end Recast
