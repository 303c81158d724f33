import Recast.Proofs.Run.Checkpoint

/-! When a call loses the output of a file. A file that is recorded goes where its source says; only
if a file that was completed before the call has its output there, a checkpoint is no longer intact. -/
namespace Recast
open Steps

/-- If the last checkpoint and all before it were intact, what it says still holds. -/
def Store.Checked (s : Store) (w : World) : Prop :=
  ∀ q, Deed.latest w.deeds = some q → s.Stands q ∧ (Sound w.deeds → q.Intact w.deeds w.tree)

theorem Store.Checked.same {s : Store} {w v : World} (checked : s.Checked w) (tree : v.tree = w.tree)
    (deeds : v.deeds = w.deeds) : s.Checked v := by
  unfold Checked
  rw [tree,deeds]
  exact checked

namespace Converter

/-- Sources that go to places of their own, all of them outside of the store. -/
structure Suited (c : Converter) (start : Progress) (sources : List Text) : Prop where
  distinct : sources.Nodup
  apart : ∀ a ∈ sources, ∀ b ∈ sources, ∀ o, c.outputOf? a = some o → c.outputOf? b = some o → a = b
  plain : ∀ a ∈ sources, ∀ o, c.outputOf? a = some o →
    Path.Plain o ∧ ¬ c.store.Inside (outputKey start o)

theorem Suited.of_nodup {c : Converter} {start : Progress} {sources : List Text}
    (distinct : sources.Nodup) (apart : (sources.map c.outputOf?).Nodup)
    (plain : ∀ o ∈ sources.filterMap c.outputOf?,
      Path.Plain o ∧ ¬ c.store.Inside (outputKey start o)) : c.Suited start sources where
  distinct := distinct
  apart := fun _ left _ right _ first second =>
    List.inj_on_of_nodup_map apart left right (first.trans second.symm)
  plain := fun a member o goes => plain o (List.mem_filterMap.2 ⟨a,member,goes⟩)

/-- A file was completed since the start of a call, and it went to the place of a file that had been
completed before. -/
def Overwrites (c : Converter) (start p : Progress) : Prop :=
  ∃ a b o, start.isCompleted b = true ∧ start.isCompleted a = false ∧ p.isCompleted a = true ∧
    c.outputOf? a = some o ∧ start.place? b = some (outputKey start o)

/-- What it means that a file was recorded: the progress before and after, and the files while the
checkpoint was saved. -/
structure Recorded (c : Converter) (f : Converted) (p q : Progress) (t : Tree) (w v : World) : Prop where
  held : v.progress = some q
  completed : ∀ a, q.isCompleted a = if a = f.source then f.outcome.completed else p.isCompleted a
  outputs : ∀ a, q.outputs.get? a =
    if f.outcome.completed ∧ a = f.source then some f.output else p.outputs.get? a
  output : q.output = p.output
  id : q.id = p.id
  distinct : p.outcomes.names.Nodup → p.outputs.names.Nodup →
    q.outcomes.names.Nodup ∧ q.outputs.names.Nodup
  deeds : v.deeds = .saved q t :: (written f ++ w.deeds)
  placed : ∀ k, t.file? k = if f.outcome.completed ∧ k = outputKey p f.output then some (.text f.content)
    else w.tree.file? k
  files : ∀ k, ¬ c.store.Inside k → v.tree.file? k = t.file? k

variable {c : Converter} {f : Converted} {start p q : Progress} {t : Tree} {w v before : World}

theorem run_recorded {done total : Nat} (held : w.progress = some p)
    (named : Path.Plain (Store.fileName p)) {u : Unit}
    (ran : (c.record f done total).run.run w = (.ok u,v)) : ∃ q t, Recorded c f p q t w v := by
  obtain ⟨later,t,deeds,placed,files,_⟩ := run_record held ran
  exact ⟨_,t,later,c.isCompleted_recorded f p w.line,c.get?_recorded f p w.line,
    c.output_recorded f p w.line,c.id_recorded f p w.line,c.nodup_recorded f w.line,deeds,placed,
    fun k outside => files k fun checkpoint => outside (Store.inside_of_checkpoint named checkpoint)⟩

namespace Recorded
variable (recorded : Recorded c f p q t w v)
include recorded

theorem key (o : Text) : outputKey q o = outputKey p o := outputKey_congr recorded.output o

theorem place?_other {a : Text} (other : a ≠ f.source) : q.place? a = p.place? a := by
  unfold Progress.place? outputKey
  rw [recorded.outputs,if_neg fun same => other same.2,recorded.output]

theorem output_other {a : Text} (other : a ≠ f.source) : q.outputs.get? a = p.outputs.get? a := by
  rw [recorded.outputs,if_neg fun same => other same.2]

theorem output_self (completed : f.outcome.completed = true) : q.outputs.get? f.source = some f.output := by
  rw [recorded.outputs,if_pos ⟨completed,rfl⟩]

theorem place?_self (completed : f.outcome.completed = true) (plain : Path.Plain f.output) :
    q.place? f.source = some (outputKey p f.output) := by
  rw [Progress.place?_of_plain (recorded.output_self completed) plain,recorded.key]

theorem isCompleted_other {a : Text} (other : a ≠ f.source) : q.isCompleted a = p.isCompleted a := by
  rw [recorded.completed,if_neg other]

theorem isCompleted_self : q.isCompleted f.source = f.outcome.completed := by
  rw [recorded.completed,if_pos rfl]

/-- Outputs that have plain places outside of the store still do. -/
theorem stands (stands : c.store.Stands p) (plain : Path.Plain f.output)
    (outside : ¬ c.store.Inside (outputKey p f.output)) : c.store.Stands q := by
  obtain ⟨distinct,single⟩ := recorded.distinct stands.distinct stands.single
  refine ⟨fun a held => ?_,?_,distinct,single⟩
  · by_cases same : a = f.source
    · subst same
      rw [recorded.isCompleted_self] at held
      exact ⟨f.output,recorded.output_self held,plain,by rwa [recorded.key]⟩
    · rw [recorded.isCompleted_other same] at held
      obtain ⟨o,there,fine,away⟩ := stands.plain a held
      exact ⟨o,(recorded.output_other same).trans there,fine,by rwa [recorded.key]⟩
  · exact Store.fileName_congr recorded.id ▸ stands.named

/-- The checkpoint is not intact if a completed file has its output where the recorded one goes. -/
theorem not_intact (completed : f.outcome.completed = true) (plain : Path.Plain f.output) {b : Text}
    (held : p.isCompleted b = true) (other : b ≠ f.source)
    (same : p.place? b = some (outputKey p f.output)) (deeds : List Deed) (t : Tree) :
    ¬ q.Intact deeds t := by
  intro intact
  refine other (intact.apart b f.source ?_ ?_ ?_)
  · rw [recorded.isCompleted_other other,held]
  · rw [recorded.isCompleted_self,completed]
  · rw [recorded.place?_other other,recorded.place?_self completed plain,same]

/-- Otherwise the checkpoint is as intact as the progress was. -/
theorem intact (plain : f.outcome.completed = true → Path.Plain f.output)
    (free : f.outcome.completed = true → ∀ b, p.isCompleted b = true → b ≠ f.source →
      p.place? b ≠ some (outputKey p f.output))
    (intact : p.Intact w.deeds w.tree) : q.Intact (written f ++ w.deeds) t := by
  have unlike (b : Text) (other : b ≠ f.source) (held : q.isCompleted b = true)
      (mine : q.isCompleted f.source = true) : q.place? b ≠ q.place? f.source := by
    rw [recorded.isCompleted_self] at mine
    rw [recorded.isCompleted_other other] at held
    rw [recorded.place?_other other,recorded.place?_self mine (plain mine)]
    exact free mine b held other
  refine ⟨fun a b left right same => ?_,fun a held => ?_⟩
  · by_cases first : a = f.source
    · by_cases second : b = f.source
      · rw [first,second]
      · exact absurd (first ▸ same.symm) (unlike b second right (first ▸ left))
    · by_cases second : b = f.source
      · exact absurd (second ▸ same) (unlike a first left (second ▸ right))
      · rw [recorded.isCompleted_other first] at left
        rw [recorded.isCompleted_other second] at right
        rw [recorded.place?_other first,recorded.place?_other second] at same
        exact intact.apart a b left right same
  · by_cases mine : a = f.source
    · subst mine
      rw [recorded.isCompleted_self] at held
      refine ⟨_,f.content,recorded.place?_self held (plain held),?_,?_⟩
      · rw [written,if_pos held]
        exact if_pos rfl
      · rw [recorded.placed,if_pos ⟨held,rfl⟩]
    · have before := recorded.isCompleted_other mine ▸ held
      obtain ⟨k,text,place,own,file⟩ := intact.own a before
      refine ⟨k,text,by rw [recorded.place?_other mine,place],?_,?_⟩
      · unfold written
        split
        · exact (if_neg (Ne.symm mine)).trans own
        · exact own
      · rw [recorded.placed,if_neg,file]
        rintro ⟨completed,rfl⟩
        exact free completed a before mine place

end Recorded

/-- How far a call has come: the progress that it holds, what it has still to do, and that the
checkpoints are intact exactly as long as nothing was overwritten. -/
structure Underway (c : Converter) (start : Progress) (sources left : List Text) (before : World)
    (p : Progress) (w : World) : Prop where
  held : w.progress = some p
  stands : c.store.Stands p
  output : p.output = start.output
  older : ∀ a, start.isCompleted a = true →
    p.isCompleted a = true ∧ p.outputs.get? a = start.outputs.get? a
  newer : ∀ a, p.isCompleted a = true → start.isCompleted a = true ∨
    a ∈ sources ∧ a ∉ left ∧ ∃ o, c.outputOf? a = some o ∧ p.outputs.get? a = some o
  waits : ∀ a ∈ left, a ∈ sources ∧ start.isCompleted a = false
  once : left.Nodup
  grown : before.deeds <:+ w.deeds
  checked : c.store.Checked w
  lost : c.Overwrites start p → ¬ Sound w.deeds
  whole : Sound before.deeds → start.Intact before.deeds before.tree → ¬ c.Overwrites start p →
    Sound w.deeds ∧ p.Intact w.deeds w.tree

namespace Underway
variable {sources left : List Text}

/-- What changes neither the progress nor the files outside of the store keeps a call where it is. -/
theorem beside (underway : c.Underway start sources left before p w) (beside : Beside c.store.Inside w v) :
    c.Underway start sources left before p v where
  held := beside.progress.trans underway.held
  stands := underway.stands
  output := underway.output
  older := underway.older
  newer := underway.newer
  waits := underway.waits
  once := underway.once
  grown := beside.deeds ▸ underway.grown
  checked := fun q last => by
    rw [beside.deeds] at last ⊢
    obtain ⟨stands,intact⟩ := underway.checked q last
    exact ⟨stands,fun sound => stands.intact (fun _ => rfl) beside.files (intact sound)⟩
  lost := beside.deeds ▸ underway.lost
  whole := fun sound intact none_ => by
    obtain ⟨later,kept⟩ := underway.whole sound intact none_
    rw [beside.deeds]
    exact ⟨later,underway.stands.intact (fun _ => rfl) beside.files kept⟩

theorem key (underway : c.Underway start sources left before p w) (o : Text) :
    outputKey p o = outputKey start o := outputKey_congr underway.output o

/-- A file that is still to come is none of those that are completed. -/
theorem ne_of_isCompleted {a b : Text} (underway : c.Underway start sources (a :: left) before p w)
    (held : p.isCompleted b = true) : b ≠ a := by
  rintro rfl
  rcases underway.newer b held with old | ⟨_,done,_⟩
  · rw [(underway.waits b (by simp)).2] at old
    cases old
  · exact done (by simp)

/-- A file that was completed before the call is where it was. -/
theorem place?_older (underway : c.Underway start sources left before p w) {b : Text}
    (old : start.isCompleted b = true) : p.place? b = start.place? b := by
  unfold Progress.place? outputKey
  rw [(underway.older b old).2,underway.output]

variable (suited : c.Suited start sources)
include suited

/-- A file is in the way of one that is recorded exactly if it had been completed before the call. -/
private theorem in_way (underway : c.Underway start sources (f.source :: left) before p w)
    (named : c.outputOf? f.source = some f.output) {b : Text} (held : p.isCompleted b = true)
    (same : p.place? b = some (outputKey p f.output)) :
    start.isCompleted b = true ∧ start.place? b = some (outputKey start f.output) := by
  have mine := (underway.waits f.source (by simp)).1
  rcases underway.newer b held with old | ⟨member,done,o,goes,output⟩
  · exact ⟨old,by rw [← underway.place?_older old,same,underway.key]⟩
  · have plain := (suited.plain b member o goes).1
    rw [Progress.place?_of_plain output plain] at same
    have equal := outputKey_inj plain (suited.plain _ mine _ named).1 (Option.some.inj same)
    have one : b = f.source := suited.apart b member _ mine o goes (equal ▸ named)
    exact absurd (by simp [one]) done

/-- Either the output of a recorded file lands on that of another one, or what was intact stays so. -/
private theorem overwrites_or_intact (underway : c.Underway start sources (f.source :: left) before p w)
    (named : c.outputOf? f.source = some f.output) (recorded : Recorded c f p q t w v) :
    (c.Overwrites start q ∧ ¬ Sound v.deeds) ∨
      ((c.Overwrites start q ↔ c.Overwrites start p) ∧
        (p.Intact w.deeds w.tree → q.Intact (written f ++ w.deeds) t)) := by
  obtain ⟨mine,fresh⟩ := underway.waits f.source (by simp)
  have plain := (suited.plain _ mine _ named).1
  by_cases hit : f.outcome.completed = true ∧
      ∃ b, p.isCompleted b = true ∧ p.place? b = some (outputKey p f.output)
  · obtain ⟨completed,b,held,same⟩ := hit
    obtain ⟨old,place⟩ := underway.in_way suited named held same
    refine .inl ⟨⟨f.source,b,f.output,old,fresh,?_,named,place⟩,fun sound => ?_⟩
    · rw [recorded.isCompleted_self,completed]
    · rw [recorded.deeds] at sound
      exact recorded.not_intact completed plain held (underway.ne_of_isCompleted held) same _ _ sound.1
  · refine .inr ⟨⟨?_,?_⟩,recorded.intact (fun _ => plain) fun completed b held _ same =>
      hit ⟨completed,b,held,same⟩⟩
    · rintro ⟨a,b,o,old,new,held,goes,place⟩
      by_cases same : a = f.source
      · subst same
        rw [recorded.isCompleted_self] at held
        rw [named] at goes
        cases goes
        rw [← underway.place?_older old,← underway.key] at place
        exact absurd ⟨held,b,(underway.older b old).1,place⟩ hit
      · rw [recorded.isCompleted_other same] at held
        exact ⟨a,b,o,old,new,held,goes,place⟩
    · rintro ⟨a,b,o,old,new,held,goes,place⟩
      rw [← recorded.isCompleted_other (underway.ne_of_isCompleted held)] at held
      exact ⟨a,b,o,old,new,held,goes,place⟩

theorem record (underway : c.Underway start sources (f.source :: left) before p w)
    (named : c.outputOf? f.source = some f.output) (recorded : Recorded c f p q t w v) :
    c.Underway start sources left before q v := by
  have mine := (underway.waits f.source (by simp)).1
  obtain ⟨alone,once⟩ := List.nodup_cons.1 underway.once
  obtain ⟨plain,outside⟩ := suited.plain _ mine _ named
  have stands := recorded.stands underway.stands plain (by rwa [underway.key])
  have fate := underway.overwrites_or_intact suited named recorded
  have grown : before.deeds <:+ v.deeds := by
    rw [recorded.deeds]
    exact (underway.grown.trans (List.suffix_append _ _)).trans (List.suffix_cons _ _)
  -- Saving touches the store only, so what is intact with the output written is intact in the end.
  have moved (intact : q.Intact (written f ++ w.deeds) t) : q.Intact v.deeds v.tree :=
    stands.intact (fun a => by rw [recorded.deeds]; rfl) recorded.files intact
  refine ⟨recorded.held,stands,recorded.output.trans underway.output,?_,?_,?_,once,grown,?_,?_,?_⟩
  · intro a old
    obtain ⟨still,kept⟩ := underway.older a old
    have other := underway.ne_of_isCompleted still
    exact ⟨by rw [recorded.isCompleted_other other,still],(recorded.output_other other).trans kept⟩
  · intro a held
    by_cases same : a = f.source
    · subst same
      rw [recorded.isCompleted_self] at held
      exact .inr ⟨mine,alone,f.output,named,recorded.output_self held⟩
    · rw [recorded.isCompleted_other same] at held
      rcases underway.newer a held with old | ⟨member,done,o,goes,there⟩
      · exact .inl old
      · exact .inr ⟨member,fun later => done (List.mem_cons_of_mem _ later),o,goes,
          (recorded.output_other same).trans there⟩
  · exact fun a member => underway.waits a (List.mem_cons_of_mem _ member)
  · intro r last
    rw [recorded.deeds] at last
    cases last
    refine ⟨stands,fun sound => moved ?_⟩
    rw [recorded.deeds] at sound
    exact sound.1
  · intro overwrites sound
    rcases fate with ⟨_,broken⟩ | ⟨same,_⟩
    · exact broken sound
    · rw [recorded.deeds] at sound
      exact underway.lost (same.1 overwrites) (sound.2.older (List.suffix_append _ _))
  · intro sound intact none_
    rcases fate with ⟨overwrites,_⟩ | ⟨same,kept⟩
    · exact absurd overwrites none_
    · obtain ⟨later,still⟩ := underway.whole sound intact fun overwrites => none_ (same.2 overwrites)
      have saved := kept still
      refine ⟨?_,moved saved⟩
      rw [recorded.deeds]
      refine ⟨saved,?_⟩
      unfold written
      split
      · exact later
      · exact later

theorem recordEach {found : List Converted} {first : List Text} (covers : c.Covers first found)
    (underway : c.Underway start sources (first ++ left) before p w) {total done : Nat}
    {result : RunResult} {r : Nat × RunResult}
    (ran : (c.recordEach total found done result).run.run w = (.ok r,v)) :
    ∃ q, c.Underway start sources left before q v := by
  induction found generalizing first p w done result with
  | nil =>
    obtain ⟨none_,_⟩ := covers
    cases none_
    cases ran
    exact ⟨p,underway⟩
  | cons f rest ih =>
    obtain ⟨same,named⟩ := covers
    rw [List.map_cons] at same
    subst same
    obtain ⟨_,between,recorded_,ran⟩ := ok_of_run_bind ran
    obtain ⟨q,t,recorded⟩ := run_recorded underway.held underway.stands.named recorded_
    have later := underway.record suited (named f (by simp)) recorded
    exact ih ⟨rfl,fun g member => named g (by simp [member])⟩ later ran

theorem convertGroups (sends : c.service.SendsTexts) {groups : List (List Source)}
    (normal : ∀ f ∈ groups.flatten, (Path.ofText f.1).toText = f.1)
    (underway : c.Underway start sources (groups.flatten.map Prod.fst) before p w) {total done : Nat}
    {result : RunResult} {r : Except RunError (Nat × RunResult)}
    (ran : (c.convertGroups total groups done result).run.run w = (r,v))
    (fine : ∀ e, r = .error e → ¬ e.OfFiles) :
    ∃ q left, c.Underway start sources left before q v := by
  induction groups generalizing p w done result with
  | nil =>
    cases ran
    exact ⟨p,_,underway⟩
  | cons first rest ih =>
    rw [run_convertGroups] at ran
    have worked := c.obeys_groupWork first fun f member => normal f (by simp [member])
    have beside := leaves_groupWork (c := c) first w
    cases same : (c.groupWork first).run.run w with
    | mk result_ between =>
      rw [same] at ran beside
      have there := underway.beside beside
      cases result_ with
      | error e =>
        cases e with
        | cancelled =>
          cases ran
          exact ⟨p,_,there.beside ⟨rfl,rfl,fun _ _ => rfl,fun _ h => h⟩⟩
        | _ =>
          cases ran
          exact ⟨p,_,there⟩
      | ok found =>
        rw [List.flatten_cons,List.map_append] at there
        dsimp only at ran
        rw [run_bind] at ran
        cases recorded : (c.recordEach total found done result).run.run between with
        | mk r_ after =>
          rw [recorded] at ran
          cases r_ with
          | error e =>
            cases ran
            exact absurd ((obeys_recordEach sends _ _ _ _).error recorded) (fine e rfl)
          | ok r_ =>
            obtain ⟨q,later⟩ := there.recordEach suited (worked.ok same) recorded
            exact ih (fun f member => normal f (by simp [member])) later ran

end Underway

/-- How a call ends: the checkpoints are intact exactly if nothing was overwritten. -/
structure Ended (c : Converter) (start : Progress) (before after : World) : Prop where
  grown : before.deeds <:+ after.deeds
  checked : c.store.Checked after
  lost : ∀ p, after.progress = some p → c.Overwrites start p → ¬ Sound after.deeds
  whole : Sound before.deeds → start.Intact before.deeds before.tree →
    (∀ p, after.progress = some p → ¬ c.Overwrites start p) → Sound after.deeds

theorem Underway.ended {sources left : List Text} (underway : c.Underway start sources left before p w) :
    c.Ended start before w where
  grown := underway.grown
  checked := underway.checked
  lost := fun q held => by
    rw [underway.held] at held
    cases held
    exact underway.lost
  whole := fun sound intact none_ => (underway.whole sound intact (none_ p underway.held)).1

/-- A last checkpoint, with the progress as intact as all before it. -/
theorem Ended.of_saved (stands : c.store.Stands p) (held : w.progress = some p)
    (grown : before.deeds <:+ w.deeds) (lost : c.Overwrites start p → ¬ Sound w.deeds)
    (whole : Sound before.deeds → start.Intact before.deeds before.tree → ¬ c.Overwrites start p →
      Sound w.deeds ∧ p.Intact w.deeds w.tree)
    {u : Unit} (ran : c.saveProgress.run.run w = (.ok u,v)) : c.Ended start before v := by
  obtain ⟨now,deeds,kept,_⟩ := run_saveProgress held ran
  have files (k : Key) (outside : ¬ c.store.Inside k) : v.tree.file? k = w.tree.file? k :=
    kept k fun checkpoint => outside (Store.inside_of_checkpoint stands.named checkpoint)
  refine ⟨?_,?_,?_,?_⟩
  · rw [deeds]
    exact grown.trans (List.suffix_cons _ _)
  · intro q last
    rw [deeds] at last
    cases last
    refine ⟨stands,fun sound => ?_⟩
    rw [deeds] at sound ⊢
    refine stands.intact (fun a => ?_) files sound.1
    rfl
  · intro q there overwrites sound
    rw [now] at there
    cases there
    rw [deeds] at sound
    exact lost overwrites sound.2
  · intro sound intact none_
    obtain ⟨later,kept⟩ := whole sound intact fun overwrites =>
      none_ { p with updated := c.now } now overwrites
    rw [deeds]
    exact ⟨kept,later⟩

/-- Where no file is to blame, files that cannot be laid out are left as they are. -/
theorem layOut_fails {result : RunResult} {e : RunError} (fine : ¬ e.OfFiles)
    (ran : (c.layOut p result).run.run w = (.error e,v)) :
    v.progress = w.progress ∧ v.deeds = w.deeds ∧ v.tree = w.tree := by
  unfold layOut at ran
  rw [run_bind,run_get] at ran
  dsimp only at ran
  split at ran
  · cases ran
    exact absurd trivial fine
  · cases ran
  · rename_i contents _ _
    rw [run_bind,Run.run_talk] at ran
    generalize (c.namer.index contents).run.run w.line = told at ran
    obtain ⟨r,line⟩ := told
    cases r with
    | error t =>
      cases ran
      exact ⟨rfl,rfl,rfl⟩
    | ok index =>
      dsimp only [Except.mapError] at ran
      split at ran
      · cases ran
        exact ⟨rfl,rfl,rfl⟩
      · rw [run_bind] at ran
        split at ran
        · cases ran
        · rename_i moved
          cases ran
          exact absurd ((obeys_moveAll _ _ _ _ _).error moved) fine

/-- The last steps of a call save its progress once more. -/
theorem ended_closing (stands : c.store.Stands p) (held : w.progress = some p)
    (grown : before.deeds <:+ w.deeds) (lost : c.Overwrites start p → ¬ Sound w.deeds)
    (whole : Sound before.deeds → start.Intact before.deeds before.tree → ¬ c.Overwrites start p →
      Sound w.deeds ∧ p.Intact w.deeds w.tree)
    {total done : Nat} {last : RunResult} {result : Except RunError RunResult}
    (ran : (c.closing total done last).run.run w = (result,v))
    (fine : ∀ e, result = .error e → ¬ e.OfFiles) : c.Ended start before v := by
  unfold closing at ran
  rw [run_bind] at ran
  cases saved : c.saveProgress.run.run w with
  | mk answer after =>
    rw [saved] at ran
    cases answer with
    | error e =>
      cases ran
      exact absurd (c.obeys_saveProgress.error saved) (fine e rfl)
    | ok u =>
      cases ran
      have ended := Ended.of_saved stands held grown lost whole saved
      exact ⟨ended.grown,ended.checked,ended.lost,ended.whole⟩

/-- A call begins with nothing overwritten, and all of its files still to come. -/
theorem underway_begin {files : List Source} (suited : c.Suited start (files.map Prod.fst))
    (stands : c.store.Stands start) (checked : c.store.Checked before) {u : Unit}
    (ran : (c.begin start files).run.run before = (.ok u,w)) :
    c.Underway start (files.map Prod.fst) ((c.pendingGroups start files).flatten.map Prod.fst) before
      { start with total := max start.total files.length } w := by
  have flat : (c.pendingGroups start files).flatten.map Prod.fst = pendingSources start files :=
    congrArg (List.map Prod.fst) (c.flatten_pendingGroups start files)
  have listed := sublist_pendingSources start files
  rw [flat]
  have kept : ¬ c.Overwrites start { start with total := max start.total files.length } := by
    rintro ⟨a,b,o,_,new,held,_⟩
    exact Bool.false_ne_true (new.symm.trans held)
  cases ran
  exact ⟨rfl,⟨stands.plain,stands.named,stands.distinct,stands.single⟩,rfl,fun a old => ⟨old,rfl⟩,
    fun a held => .inl held,fun a member => ⟨listed.subset member,isCompleted_of_pending member⟩,
    suited.distinct.sublist listed,List.suffix_refl _,checked,fun overwrites => absurd overwrites kept,
    fun sound intact _ => ⟨sound,intact.apart,intact.own⟩⟩

section
variable {Name : Text → Prop} (spreads : c.target.Spreads c.settings.language.package Name)
  (clear : ∀ source name, Name name →
    ¬ c.store.Inside (outputKey start (c.namer.outputOf source name)))
include spreads clear

theorem Underway.conclude {sources left : List Text}
    (underway : c.Underway start sources left before p w) {total : Nat} {r : Nat × RunResult}
    {result : Except RunError RunResult} (ran : (c.conclude total r).run.run w = (result,v))
    (fine : ∀ e, result = .error e → ¬ e.OfFiles) : c.Ended start before v := by
  cases cancelled : r.2.cancelled with
  | true =>
    rw [conclude_cancelled cancelled] at ran
    exact ended_closing underway.stands underway.held underway.grown underway.lost underway.whole ran fine
  | false =>
    rw [conclude_whole underway.held cancelled,run_bind] at ran
    cases laid : (c.layOut p r.2).run.run w with
    | mk answer between =>
      rw [laid] at ran
      cases answer with
      | error e =>
        cases ran
        obtain ⟨held,deeds,tree⟩ := layOut_fails (fine e rfl) laid
        exact (underway.beside ⟨held,deeds,fun _ _ => by rw [tree],fun _ h => by rw [tree]; exact h⟩).ended
      | ok found =>
        obtain ⟨q,last⟩ := found
        have done := laidOut spreads underway.stands
          (fun source name named => by rw [underway.key]; exact clear source name named) laid
        have same : c.Overwrites start q ↔ c.Overwrites start p := by
          unfold Overwrites
          simp only [Progress.isCompleted_congr done.outcomes]
        obtain ⟨texts,deeds⟩ := done.deeds
        have sound : Sound between.deeds ↔ Sound w.deeds := by rw [deeds,sound_wrote]
        refine ended_closing (w := { between with progress := some q }) done.stands rfl ?_ ?_ ?_ ran fine
        · change before.deeds <:+ between.deeds
          rw [deeds]
          exact underway.grown.trans (List.suffix_append _ _)
        · exact fun overwrites held => underway.lost (same.1 overwrites) (sound.1 held)
        · intro held intact none_
          obtain ⟨later,kept⟩ := underway.whole held intact fun overwrites => none_ (same.2 overwrites)
          exact ⟨sound.2 later,done.intact kept⟩

/-- A call for some files, from its start to its end. -/
theorem ended_runProject (sends : c.service.SendsTexts) {id : Text} {begins : Option Progress}
    {files : List Source} (same : start = c.startOf id begins files)
    (suited : c.Suited start ((normalized files).map Prod.fst)) (stands : c.store.Stands start)
    (checked : c.store.Checked before) (idle : before.progress = none)
    {result : Except RunError RunResult}
    (ran : (c.runProject id begins files).run.run before = (result,v))
    (fine : ∀ e, result = .error e → ¬ e.OfFiles) : c.Ended start before v := by
  rw [runProject_eq,run_bind,← same] at ran
  unfold probe at ran
  cases reached : c.service.probe with
  | error why =>
    rw [reached] at ran
    cases ran
    refine ⟨List.suffix_refl _,checked,fun p held => ?_,fun sound _ _ => sound⟩
    rw [idle] at held
    cases held
  | ok u =>
    rw [reached] at ran
    change (c.runFrom start (normalized files)).run.run before = (result,v) at ran
    rw [runFrom_eq,run_bind] at ran
    obtain ⟨w,begun,_⟩ := c.run_begin start (normalized files) before
    have underway := underway_begin suited stands checked begun
    have normal : ∀ f ∈ (c.pendingGroups start (normalized files)).flatten,
        (Path.ofText f.1).toText = f.1 := fun f member => normal_of_mem (mem_of_mem_pendingGroups member)
    rw [begun] at ran
    dsimp only at ran
    rw [run_bind] at ran
    cases worked : (c.convertGroups (normalized files).length (c.pendingGroups start (normalized files))
        ((normalized files).length - ((normalized files).filter fun f => !start.isCompleted f.1).length)
        {}).run.run w with
    | mk answer between =>
      rw [worked] at ran
      cases answer with
      | error e =>
        cases ran
        obtain ⟨q,left,later⟩ := underway.convertGroups suited sends normal worked
          fun e_ same => by cases same; exact fine e rfl
        exact later.ended
      | ok r =>
        obtain ⟨q,left,later⟩ := underway.convertGroups suited sends normal worked
          fun e none_ => by cases none_
        exact later.conclude spreads clear ran fine

end

end Converter
end Recast
