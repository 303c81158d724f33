import Recast.Proofs.Files.Tree
import Recast.Proofs.Run.Work

/-! What a step leaves as it is. The work on a group of files changes neither the progress nor a
file outside of the store, whatever comes of it. -/
namespace Recast
open Steps

/-- The place is in the folder of a store. -/
def Store.Inside (s : Store) (k : Key) : Prop := Key.ofPath s.folder <+: k

instance (s : Store) (k : Key) : Decidable (s.Inside k) :=
  inferInstanceAs (Decidable (Key.ofPath s.folder <+: k))

/-- The progress, the deeds and the files are as they were, but for places that may be touched. -/
structure Beside (Touched : Key → Prop) (before after : World) : Prop where
  progress : after.progress = before.progress
  deeds : after.deeds = before.deeds
  files : ∀ k, ¬ Touched k → after.tree.file? k = before.tree.file? k
  folders : ∀ k, before.tree.isFolder k = true → after.tree.isFolder k = true

section
variable {Touched More : Key → Prop} {α β : Type}

theorem Beside.refl (w : World) : Beside Touched w w := ⟨rfl,rfl,fun _ _ => rfl,fun _ h => h⟩

theorem Beside.trans {first second third : World} (left : Beside Touched first second)
    (right : Beside Touched second third) : Beside Touched first third :=
  ⟨right.progress.trans left.progress,right.deeds.trans left.deeds,
    fun k outside => (right.files k outside).trans (left.files k outside),
    fun k there => right.folders k (left.folders k there)⟩

theorem Beside.mono {before after : World} (beside : Beside Touched before after)
    (more : ∀ k, Touched k → More k) : Beside More before after :=
  ⟨beside.progress,beside.deeds,fun k outside => beside.files k fun held => outside (more k held),
    beside.folders⟩

/-- A place in a folder of the store. -/
theorem Store.inside_child {name : Text} (plain : Path.Plain name) (s : Store) (rest : Key) :
    s.Inside (Key.ofPath (s.folder.child name) ++ rest) := by
  rw [Key.ofPath_child plain,List.append_assoc]
  exact List.prefix_append _ _

/-- Steps that leave the progress, the deeds and the files as they are, but for places that they may
touch. -/
def Leaves (Touched : Key → Prop) (m : Run α) : Prop := ∀ w, Beside Touched w (m.run.run w).2

theorem Leaves.modify {f : World → World} (h : ∀ w, Beside Touched w (f w)) :
    Leaves Touched (modify f : Run Unit) := h

theorem Leaves.throw (e : RunError) : Leaves Touched (throw e : Run α) := Beside.refl

theorem Leaves.pure (a : α) : Leaves Touched (pure a : Run α) := Beside.refl

theorem Leaves.get : Leaves Touched (get : Run World) := Beside.refl

theorem Leaves.bind {m : Run α} {f : α → Run β} (first : Leaves Touched m)
    (next : ∀ a, Leaves Touched (f a)) : Leaves Touched (m >>= f) := Relates.bind Beside.trans first next

theorem Leaves.observe {m : Run α} (leaves : Leaves Touched m) : Leaves Touched (Run.observe m) := leaves

theorem Leaves.talk (talked : Talk α) : Leaves Touched (Run.talk talked) :=
  fun _ => ⟨rfl,rfl,fun _ _ => rfl,fun _ h => h⟩

theorem Leaves.emit (watches : List Watch) (e : Event) : Leaves Touched (Run.emit watches e) :=
  fun _ => ⟨rfl,rfl,fun _ _ => rfl,fun _ h => h⟩

theorem Leaves.poll (watches : List Watch) : Leaves Touched (Run.poll watches) :=
  Run.relates_poll Beside.refl Beside.trans (fun e w _ => Leaves.emit watches e w)
    fun _ _ => ⟨rfl,rfl,fun _ _ => rfl,fun _ h => h⟩

theorem Leaves.files {change : Tree → Except FileFault Tree}
    (kept : ∀ t later, change t = .ok later →
      (∀ k, ¬ Touched k → later.file? k = t.file? k) ∧
      ∀ k, t.isFolder k = true → later.isFolder k = true) :
    Leaves Touched (Run.files change) := by
  intro w
  rw [Run.run_files]
  cases changed : change w.tree with
  | ok t => exact ⟨rfl,rfl,(kept _ _ changed).1,(kept _ _ changed).2⟩
  | error fault => exact Beside.refl w

end

namespace Converter
variable {c : Converter}

/-- The place is in the folder where transcripts are kept, if there are to be any. -/
def Transcript (c : Converter) (k : Key) : Prop :=
  c.settings.run.transcripts = true ∧ Key.ofPath (c.store.folder.child "conversations") <+: k

instance (c : Converter) (k : Key) : Decidable (c.Transcript k) :=
  inferInstanceAs (Decidable (_ ∧ _ <+: _))

theorem inside_of_transcript {k : Key} (transcript : c.Transcript k) : c.store.Inside k := by
  obtain ⟨rest,rfl⟩ := transcript.2
  exact Store.inside_child (by decide +kernel) c.store rest

theorem leaves_saveTranscript (source : Text) (history : History) :
    Leaves c.Transcript (c.saveTranscript source history) := by
  unfold saveTranscript
  split
  · rename_i wanted
    refine Leaves.files fun t later changed => ?_
    cases made : t.makeFolders (Key.ofPath (c.store.folder.child "conversations")) with
    | error fault =>
      rw [made] at changed
      cases changed
    | ok between =>
      rw [made] at changed
      refine ⟨fun k outside => ?_,fun k there => ?_⟩
      · rw [Tree.file?_write changed,if_neg,Tree.file?_makeFolders made]
        exact fun same => outside ⟨wanted,same ▸ List.prefix_append _ _⟩
      · rw [(Tree.isFolder_write changed).2]
        exact (Tree.isFolder_makeFolders made).2 k there
  · exact Leaves.pure _

theorem Works.leaves {x y : Circumstance} {α : Type} {m n : Run α} (works : c.Works x y m n) :
    Leaves c.Transcript m := by
  induction works with
  | pure a => exact .pure a
  | throw e => exact .throw e
  | bind _ _ first next => exact first.bind next
  | attempt _ _ _ first next => exact first.observe.bind next
  | emit e _ => exact .emit _ e
  | poll => exact .poll _
  | sleep seconds => exact .modify fun w => ⟨rfl,rfl,fun _ _ => rfl,fun _ h => h⟩
  | convert prompt text context history => exact .talk _
  | confirm code issues history => exact .talk _
  | repair code issues history => exact fun w => ⟨rfl,rfl,fun _ _ => rfl,fun _ h => h⟩
  | context given =>
    unfold summaryContext
    split
    · exact .pure _
    · exact Leaves.get.bind fun _ => .pure _
  | transcript source history => exact (leaves_saveTranscript source history : Leaves (c.under x).Transcript _)

/-- Whatever comes of a group, its work changes neither the progress nor a file outside of the
store. -/
theorem leaves_groupWork (files : List Source) : Leaves c.store.Inside (c.groupWork files) :=
  fun w => ((Works.groupWork files : c.Works ⟨c.service,c.watches,c.now⟩ ⟨c.service,c.watches,c.now⟩ _ _).leaves
    w).mono fun _ => inside_of_transcript

end Converter
end Recast
