import Recast.Proofs.Run.History
import Recast.Proofs.Run.Resumption

/-! What a run has to say for itself. Each file that was pending is in the result once, in the order
in which the files came, the numbers of the result and the progress go with it, and the events tell
the same. -/
namespace Recast
open Steps

section
variable {Said More : Event → Prop} {α β : Type}

/-- Steps that publish events of one sort, whatever comes of them. -/
def Emits (Said : Event → Prop) (m : Run α) : Prop :=
  ∀ w, ∃ told, (m.run.run w).2.events = w.events ++ told ∧ ∀ e ∈ told, Said e

/-- Steps that publish nothing. -/
def Quiet (m : Run α) : Prop := ∀ w, (m.run.run w).2.events = w.events

theorem Quiet.emits {m : Run α} (quiet : Quiet m) : Emits Said m :=
  fun w => ⟨[],by rw [quiet w,List.append_nil],by simp⟩

theorem Emits.emit (watches : List Watch) {e : Event} (said : Said e) : Emits Said (Run.emit watches e) :=
  fun _ => ⟨[e],rfl,by simpa using said⟩

/-- Only events of one sort were published between two worlds. -/
def World.Tells (Said : Event → Prop) (w v : World) : Prop :=
  ∃ told, v.events = w.events ++ told ∧ ∀ e ∈ told, Said e

theorem World.Tells.refl (w : World) : w.Tells Said w := ⟨[],(List.append_nil _).symm,by simp⟩

theorem World.Tells.trans {u v w : World} (first : u.Tells Said v) (later : v.Tells Said w) :
    u.Tells Said w := by
  obtain ⟨told,events,fine⟩ := first
  obtain ⟨more,events_,good⟩ := later
  refine ⟨told ++ more,by rw [events_,events,List.append_assoc],?_⟩
  intro e member
  exact (List.mem_append.1 member).elim (fine e) (good e)

theorem Emits.bind {m : Run α} {f : α → Run β} (first : Emits Said m) (next : ∀ a, Emits Said (f a)) :
    Emits Said (m >>= f) := Relates.bind (R := World.Tells Said) .trans first next

theorem Emits.observe {m : Run α} (emits : Emits Said m) : Emits Said (Run.observe m) := emits

theorem Quiet.bind {m : Run α} {f : α → Run β} (first : Quiet m) (next : ∀ a, Quiet (f a)) :
    Quiet (m >>= f) :=
  Relates.bind (R := fun w v : World => v.events = w.events) (fun before after => after.trans before)
    first next

theorem Quiet.pure (a : α) : Quiet (pure a : Run α) := fun _ => rfl

theorem Quiet.throw (e : RunError) : Quiet (throw e : Run α) := fun _ => rfl

theorem Quiet.get : Quiet (get : Run World) := fun _ => rfl

theorem Quiet.modify {f : World → World} (same : ∀ w, (f w).events = w.events) :
    Quiet (modify f : Run Unit) := same

theorem Quiet.note (d : Deed) : Quiet (Run.note d) := fun _ => rfl

theorem Quiet.observe {m : Run α} (quiet : Quiet m) : Quiet (Run.observe m) := quiet

theorem Quiet.talk (talked : Talk α) : Quiet (Run.talk talked) := fun _ => rfl

theorem Quiet.files (change : Tree → Except FileFault Tree) : Quiet (Run.files change) := by
  intro w
  rw [Run.run_files]
  cases change w.tree with
  | ok t => rfl
  | error fault => rfl

theorem Quiet.ran {m : Run α} (quiet : Quiet m) {w v : World} {r : Except RunError α}
    (ran : m.run.run w = (r,v)) : v.events = w.events := by
  have same := quiet w
  rwa [ran] at same

theorem Emits.poll (watches : List Watch) :
    Emits (fun e => e.kind.ofWork = true) (Run.poll watches) := by
  refine Run.relates_poll (R := World.Tells _) .refl .trans (fun e w kind => ?_)
    fun w _ => World.Tells.refl w
  refine Emits.emit watches ?_ w
  rcases kind with paused | resumed
  · rw [paused]
    rfl
  · rw [resumed]
    rfl

end

theorem RunResult.cancelled_foldl (files : List Converted) (r : RunResult) :
    (files.foldl RunResult.add r).cancelled = r.cancelled := by
  induction files generalizing r with
  | nil => rfl
  | cons f rest ih => exact (ih (r.add f)).trans (r.cancelled_add f)

theorem RunResult.files_foldl (files : List Converted) (r : RunResult) :
    (files.foldl RunResult.add r).files = r.files ++ files := by
  induction files generalizing r with
  | nil => exact (List.append_nil _).symm
  | cons f rest ih => rw [List.foldl_cons,ih,RunResult.files_add,List.append_assoc,List.singleton_append]

namespace Converter
variable {c : Converter}

theorem quiet_saveTranscript (source : Text) (history : History) : Quiet (c.saveTranscript source history) := by
  unfold saveTranscript
  split
  · exact .files _
  · exact .pure _

theorem quiet_summaryContext (given : Text) : Quiet (c.summaryContext given) := by
  unfold summaryContext
  split
  · exact .pure _
  · exact Quiet.get.bind fun _ => .pure _

theorem Works.emits {x y : Circumstance} {α : Type} {m n : Run α} (works : c.Works x y m n) :
    Emits (fun e => e.kind.ofWork = true) m := by
  induction works with
  | pure a => exact (Quiet.pure a).emits
  | throw e => exact (Quiet.throw e).emits
  | bind _ _ first next => exact first.bind next
  | attempt _ _ _ first next => exact first.observe.bind next
  | emit e work => exact .emit _ work
  | poll => exact .poll _
  | sleep seconds => exact (Quiet.modify fun _ => rfl).emits
  | convert prompt text context history => exact (Quiet.talk _).emits
  | confirm code issues history => exact (Quiet.talk _).emits
  | repair code issues history => exact Quiet.emits fun _ => rfl
  | context given => exact (quiet_summaryContext given).emits
  | transcript source history => exact (quiet_saveTranscript source history).emits

theorem emits_groupWork (files : List Source) :
    Emits (fun e => e.kind.ofWork = true) (c.groupWork files) :=
  (Works.groupWork files : c.Works ⟨c.service,c.watches,c.now⟩ ⟨c.service,c.watches,c.now⟩ _ _).emits

theorem quiet_withProgress {f : Progress → Run Unit} (quiet : ∀ p, Quiet (f p)) :
    Quiet (withProgress f) := by
  unfold withProgress
  refine Quiet.get.bind fun w => ?_
  split
  · exact quiet _
  · exact .pure _

theorem quiet_setProgress (p : Progress) : Quiet (setProgress p) := fun _ => rfl

theorem quiet_saveProgress : Quiet c.saveProgress := by
  unfold saveProgress
  refine quiet_withProgress fun p => Quiet.get.bind fun w => ?_
  refine (Quiet.note _).bind fun _ => Quiet.get.bind fun w => ?_
  split
  · exact .modify fun _ => rfl
  · exact .throw _

theorem quiet_summarize (f : Converted) : Quiet (c.summarize f) := by
  unfold summarize
  split
  · refine (Quiet.talk _).observe.bind fun r => ?_
    split
    · exact quiet_withProgress fun _ => quiet_setProgress _
    · exact .pure _
    · exact .throw _
  · exact .pure _

variable {p q : Progress} {w v : World} {total done : Nat} {result : RunResult}

theorem events_enter {f : Converted} {u : Unit} (ran : (c.enter f done total).run.run w = (.ok u,v)) :
    v.events = w.events ++ [fileEvent f done total] := by
  obtain ⟨_,entered,first,ran⟩ := ok_of_run_bind ran
  obtain ⟨_,saved,second,ran⟩ := ok_of_run_bind ran
  rw [← (quiet_withProgress fun _ => quiet_setProgress _).ran first,← quiet_saveProgress.ran second]
  cases ran
  rfl

/-- A file that is recorded is reported once. -/
theorem events_record {f : Converted} {u : Unit} (ran : (c.record f done total).run.run w = (.ok u,v)) :
    v.events = w.events ++ [fileEvent f done total] := by
  by_cases completed : f.outcome.completed = true
  · rw [c.record_completed completed] at ran
    obtain ⟨_,placed,first,ran⟩ := ok_of_run_bind ran
    obtain ⟨_,noted,second,ran⟩ := ok_of_run_bind ran
    obtain ⟨_,told,third,ran⟩ := ok_of_run_bind ran
    rw [events_enter ran,(quiet_summarize f).ran third,(Quiet.note _).ran second,
      (quiet_withProgress fun _ => Quiet.files _).ran first]
  · rw [c.record_failed completed] at ran
    exact events_enter ran

/-- What is completed once some files are recorded is what was completed before, and those of them
that did not fail. -/
def Completes (p q : Progress) (found : List Converted) : Prop :=
  ∀ a, q.isCompleted a = true ↔ (p.isCompleted a = true ∧ a ∉ found.map Converted.source) ∨
    ∃ f ∈ found, f.source = a ∧ f.outcome.completed = true

theorem Completes.append {r : Progress} {found more : List Converted} (first : Completes p q found)
    (later : Completes q r more)
    (apart : ∀ a ∈ found.map Converted.source, a ∉ more.map Converted.source) :
    Completes p r (found ++ more) := by
  intro a
  have away (f : Converted) (member : f ∈ found) (same : f.source = a) :
      a ∉ more.map Converted.source := same ▸ apart f.source (List.mem_map_of_mem member)
  rw [later a,first a,List.map_append,List.mem_append,not_or]
  constructor
  · rintro (⟨⟨before,other⟩ | ⟨f,member,same,completed⟩,absent⟩ | ⟨f,member,same,completed⟩)
    · exact .inl ⟨before,other,absent⟩
    · exact .inr ⟨f,List.mem_append_left _ member,same,completed⟩
    · exact .inr ⟨f,List.mem_append_right _ member,same,completed⟩
  · rintro (⟨before,other,absent⟩ | ⟨f,member,same,completed⟩)
    · exact .inl ⟨.inl ⟨before,other⟩,absent⟩
    · rcases List.mem_append.1 member with front | back
      · exact .inl ⟨.inr ⟨f,front,same,completed⟩,away f front same⟩
      · exact .inr ⟨f,back,same,completed⟩

/-- Some files were recorded one after the other: they are completed as their outcomes say, and each of
them was reported once, with its number; beyond that, the events tell of the work only. -/
structure Accounts (total done : Nat) (found : List Converted) (p q : Progress) (w v : World) : Prop where
  held : v.progress = some q
  completes : Completes p q found
  events : ∃ told, v.events = w.events ++ told ∧
    (∀ e ∈ told, e.kind.ofWork = true ∨ e.kind = .fileFinished) ∧
    (told.filter fun e => e.kind = .fileFinished) =
      found.mapIdx fun i f => fileEvent f (done + i + 1) total

theorem Accounts.nil (held : w.progress = some p) : Accounts total done [] p p w w :=
  ⟨held,by simp [Completes],[],by simp⟩

theorem Accounts.append {r : Progress} {u : World} {found more : List Converted}
    (first : Accounts total done found p q w u)
    (later : Accounts total (done + found.length) more q r u v)
    (apart : ∀ a ∈ found.map Converted.source, a ∉ more.map Converted.source) :
    Accounts total done (found ++ more) p r w v := by
  obtain ⟨told,events,kinds,files⟩ := first.events
  obtain ⟨told_,events_,kinds_,files_⟩ := later.events
  refine ⟨later.held,first.completes.append later.completes apart,told ++ told_,?_,?_,?_⟩
  · rw [events_,events,List.append_assoc]
  · intro e member
    exact (List.mem_append.1 member).elim (kinds e) (kinds_ e)
  · rw [List.filter_append,files,files_,List.mapIdx_append]
    simp only [Nat.add_assoc,Nat.add_comm found.length]

/-- Work on a group goes before what is recorded of it. -/
theorem Accounts.worked {u : World} {found : List Converted} {told : List Event}
    (accounts : Accounts total done found p q u v) (events : u.events = w.events ++ told)
    (work : ∀ e ∈ told, e.kind.ofWork = true) : Accounts total done found p q w v := by
  obtain ⟨told_,events_,kinds,files⟩ := accounts.events
  refine ⟨accounts.held,accounts.completes,told ++ told_,?_,?_,?_⟩
  · rw [events_,events,List.append_assoc]
  · intro e member
    exact (List.mem_append.1 member).elim (fun front => .inl (work e front)) (kinds e)
  · have none_ : (told.filter fun e => e.kind = .fileFinished) = [] := by
      apply List.filter_eq_nil_iff.2
      intro e member same
      have kind := work e member
      rw [of_decide_eq_true same] at kind
      cases kind
    rw [List.filter_append,none_,files,List.nil_append]

theorem accounts_record {f : Converted} {u : Unit} (held : w.progress = some p)
    (ran : (c.record f (done + 1) total).run.run w = (.ok u,v)) :
    ∃ q, Accounts total done [f] p q w v := by
  refine ⟨_,(run_record held ran).1,?_,_,events_record ran,?_,?_⟩
  · intro a
    rw [isCompleted_recorded]
    by_cases same : a = f.source
    · simp [same]
    · simp [same,Ne.symm same]
  · intro e member
    rw [List.mem_singleton.1 member]
    exact .inr rfl
  · rfl

theorem accounts_recordEach {files : List Converted} {r : Nat × RunResult} (held : w.progress = some p)
    (distinct : (files.map Converted.source).Nodup)
    (ran : (c.recordEach total files done result).run.run w = (.ok r,v)) :
    r = (done + files.length,files.foldl RunResult.add result) ∧
      ∃ q, Accounts total done files p q w v := by
  induction files generalizing p w done result with
  | nil =>
    cases ran
    exact ⟨by simp,p,.nil held⟩
  | cons f rest ih =>
    obtain ⟨fresh,distinct⟩ := List.nodup_cons.1 distinct
    obtain ⟨_,between,first,ran⟩ := ok_of_run_bind ran
    obtain ⟨q,one⟩ := accounts_record held first
    obtain ⟨same,s,later⟩ := ih one.held distinct ran
    refine ⟨?_,s,one.append later fun a member => ?_⟩
    · rw [same,List.length_cons,List.foldl_cons,Nat.add_assoc,Nat.add_comm 1]
    · rw [List.mem_singleton.1 member]
      exact fresh

def cancelEvent (done total : Nat) : Event where
  kind := .cancelled
  message := "Cancelled"
  current := done
  total := total

/-- What the work on some groups comes to: the files of a first part of them are accounted for, which
is all of them unless the work was cancelled, and that is reported last. -/
theorem accounts_convertGroups {groups : List (List Source)} {r : Nat × RunResult}
    (held : w.progress = some p) (normal : ∀ f ∈ groups.flatten, (Path.ofText f.1).toText = f.1)
    (distinct : (groups.flatten.map Prod.fst).Nodup) (going : result.cancelled = false)
    (ran : (c.convertGroups total groups done result).run.run w = (.ok r,v)) :
    ∃ found q between, Accounts total done found p q w between ∧ v.progress = some q ∧
      v.events = between.events ++ (if r.2.cancelled then [cancelEvent r.1 total] else []) ∧
      r.1 = done + found.length ∧
      r.2 = { found.foldl RunResult.add result with cancelled := r.2.cancelled } ∧
      found.map Converted.source <+: groups.flatten.map Prod.fst ∧
      (r.2.cancelled = false → found.map Converted.source = groups.flatten.map Prod.fst) := by
  induction groups generalizing p w done result with
  | nil =>
    cases ran
    exact ⟨[],p,v,.nil held,held,by simp [going],rfl,rfl,by simp⟩
  | cons first rest ih =>
    rw [List.flatten_cons,List.map_append] at distinct
    obtain ⟨_,distinct_,apart⟩ := List.nodup_append.1 distinct
    obtain ⟨told,events,work⟩ := emits_groupWork (c := c) first w
    have progress := (leaves_groupWork (c := c) first w).progress
    have covers := c.obeys_groupWork first fun f member => normal f (by simp [member])
    -- What was converted of a group is given up with it; only what was recorded before counts.
    rcases convertGroups_cons ran with ⟨between,worked,ran⟩ | ⟨files,between,more,after,worked,recorded,ran⟩
    · rw [worked] at events progress
      cases ran
      refine ⟨[],p,between,?_,progress.trans held,rfl,rfl,rfl,by simp⟩
      exact (Accounts.nil (progress.trans held)).worked events work
    · rw [worked] at events progress
      have sources : files.map Converted.source = first.map Prod.fst := (covers.ok worked).1
      obtain ⟨same,q,here⟩ := accounts_recordEach (progress.trans held)
        (sources ▸ (List.nodup_append.1 distinct).1) recorded
      subst same
      obtain ⟨found,s,last,later,held_,ends,count,all,before,whole⟩ := ih here.held
        (fun f member => normal f (by simp [member])) distinct_
        ((RunResult.cancelled_foldl files result).trans going) ran
      -- A later failure would undo a completed file, but each source stands in one group only.
      have other (a : Text) (member : a ∈ files.map Converted.source) :
          a ∉ found.map Converted.source := by
        intro again
        exact apart a (sources ▸ member) a (before.subset again) rfl
      refine ⟨files ++ found,s,last,(here.append later other).worked events work,held_,ends,?_,?_,?_,?_⟩
      · rw [count,List.length_append]
        omega
      · rw [List.foldl_append]
        exact all
      · rw [List.map_append,List.flatten_cons,List.map_append,sources]
        exact (List.prefix_append_right_inj _).2 before
      · intro still
        rw [List.map_append,List.flatten_cons,List.map_append,sources,whole still]

end Converter
end Recast
