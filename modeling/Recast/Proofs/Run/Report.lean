import Recast.Proofs.Run.Account

/-! What a call reports. Its result, the progress that it leaves and its events are filled in different
places, and tell the same of the files. -/
namespace Recast
open Steps

namespace Converted

/-- What a move leaves of a file. -/
def bare (f : Converted) : Converted := { f with output := [], content := [] }

variable {β : Type} {files files_ : List Converted}

theorem map_of_bare {seen : Converted → β} (kept : ∀ f, seen f.bare = seen f)
    (same : files.map bare = files_.map bare) : files.map seen = files_.map seen := by
  have through (l : List Converted) : (l.map bare).map seen = l.map seen := by
    rw [List.map_map]
    exact List.map_congr_left fun f _ => kept f
  rw [← through,same,through]

theorem mapIdx_of_bare {seen : Nat → Converted → β} (kept : ∀ i f, seen i f.bare = seen i f)
    (same : files.map bare = files_.map bare) : files.mapIdx seen = files_.mapIdx seen := by
  have through (l : List Converted) : (l.map bare).mapIdx seen = l.mapIdx seen := by
    apply List.ext_getElem?
    intro i
    rw [List.getElem?_mapIdx,List.getElem?_mapIdx,List.getElem?_map,Option.map_map]
    exact congrArg (fun g => l[i]?.map g) (funext fun f => kept i f)
  rw [← through,same,through]

end Converted

namespace RunResult
variable {r : RunResult}

/-- The numbers and the paths of a result are those of its files. -/
structure Tallied (r : RunResult) : Prop where
  clean : r.clean = r.files.countP fun f => f.outcome = .clean
  flagged : r.flagged = r.files.countP fun f => f.outcome = .flagged
  failed : r.failed = r.files.countP fun f => f.outcome = .failed
  flaggedPaths : r.flaggedPaths = (r.files.filter fun f => f.outcome = .flagged).map Converted.source
  failedPaths : r.failedPaths = (r.files.filter fun f => f.outcome = .failed).map Converted.source

theorem Tallied.add (tallied : r.Tallied) (f : Converted) : (r.add f).Tallied := by
  obtain ⟨clean,flagged,failed,flaggedPaths,failedPaths⟩ := tallied
  unfold RunResult.add
  cases same : f.outcome with
  | clean => constructor <;> simp [*]
  | flagged => constructor <;> simp [*]
  | failed => constructor <;> simp [*]

theorem Tallied.foldl (tallied : r.Tallied) (files : List Converted) :
    (files.foldl RunResult.add r).Tallied := by
  induction files generalizing r with
  | nil => exact tallied
  | cons f rest ih => exact ih (tallied.add f)

theorem Tallied.total (tallied : r.Tallied) : r.clean + r.flagged + r.failed = r.files.length := by
  rw [tallied.clean,tallied.flagged,tallied.failed]
  induction r.files with
  | nil => rfl
  | cons f rest ih =>
    simp only [List.countP_cons,List.length_cons,decide_eq_true_eq]
    cases f.outcome <;> simp <;> omega

/-- Moves and a cancellation change nothing that is counted. -/
theorem Tallied.moved {files : List Converted} {passes : Nat} {converged cancelled : Bool}
    (tallied : r.Tallied) (same : files.map Converted.bare = r.files.map Converted.bare) :
    Tallied { r with files := files, passes := passes, converged := converged, cancelled := cancelled } := by
  have counted (o : FileOutcome) : (r.files.countP fun f => f.outcome = o) =
      files.countP fun f => f.outcome = o := by
    have plain (files : List Converted) : (files.countP fun f => f.outcome = o) =
        (files.map Converted.outcome).countP fun k => k = o := by
      rw [List.countP_map]
      rfl
    rw [plain,plain,Converted.map_of_bare (fun _ => rfl) same]
  have listed (o : FileOutcome) : (r.files.filter fun f => f.outcome = o).map Converted.source =
      (files.filter fun f => f.outcome = o).map Converted.source := by
    have plain (files : List Converted) : (files.filter fun f => f.outcome = o).map Converted.source =
        ((files.map fun f => (f.source,f.outcome)).filter fun e => e.2 = o).map Prod.fst := by
      rw [List.filter_map,List.map_map]
      rfl
    rw [plain,plain,Converted.map_of_bare (fun _ => rfl) same]
  exact ⟨tallied.clean.trans (counted _),tallied.flagged.trans (counted _),tallied.failed.trans (counted _),
    tallied.flaggedPaths.trans (listed _),tallied.failedPaths.trans (listed _)⟩

end RunResult

def startEvent (start : Progress) (files : List Source) : Event where
  kind := .runStarted
  message := "Translating " ++ Numeral.ofNat (Converter.pendingSources start files).length ++ " file(s)"
  current := (files.length - (Converter.pendingSources start files).length : Nat)
  total := files.length

def finishEvent (result : RunResult) (done total : Nat) : Event where
  kind := .runFinished
  message := Converter.summaryLine result
  current := done
  total := total

def stopEvents (result : RunResult) (done total : Nat) : List Event :=
  if result.cancelled then [Converter.cancelEvent done total] else []

namespace Converter
variable {c : Converter} {p : Progress} {w v : World} {total done : Nat} {result : RunResult}
  {r : Nat × RunResult}

/-- Once the work has ended, files are moved and the progress is saved; no outcome changes. -/
structure Concludes (total : Nat) (r : Nat × RunResult) (result : RunResult) (p : Progress) (w v : World) :
    Prop where
  same : result = { r.2 with files := result.files, passes := result.passes, converged := result.converged }
  bare : result.files.map Converted.bare = r.2.files.map Converted.bare
  held : ∃ q, v.progress = some q ∧ q.outcomes = p.outcomes
  events : ∃ told, v.events = w.events ++ (told ++ [finishEvent result r.1 total]) ∧
    (∀ e ∈ told, e.kind = .renamingFinished) ∧ told.length ≤ if r.2.cancelled then 0 else 1

theorem concludes_closing {last : RunResult} (held : w.progress = some p)
    (ran : (c.closing total done result).run.run w = (.ok last,v)) :
    last = result ∧ v.events = w.events ++ [finishEvent result done total] ∧
      ∃ q, v.progress = some q ∧ q.outcomes = p.outcomes := by
  obtain ⟨answered,now,_⟩ := run_closing held ran nofun
  obtain ⟨_,between,saved,ran⟩ := ok_of_run_bind ran
  cases ran
  refine ⟨Except.ok.inj answered,?_,_,now,rfl⟩
  rw [← quiet_saveProgress.ran saved]
  rfl

theorem concludes_conclude (held : w.progress = some p)
    (ran : (c.conclude total r).run.run w = (.ok result,v)) : Concludes total r result p w v := by
  cases cancelled : r.2.cancelled with
  | true =>
    rw [conclude_cancelled cancelled] at ran
    obtain ⟨rfl,events,progress⟩ := concludes_closing held ran
    exact ⟨rfl,rfl,progress,[],events,by simp⟩
  | false =>
    rw [conclude_whole held cancelled] at ran
    obtain ⟨⟨q,later⟩,laid,first,ran⟩ := ok_of_run_bind ran
    obtain ⟨_,between,set_,ran⟩ := ok_of_run_bind ran
    cases set_
    obtain ⟨rfl,events,s,now,kept⟩ := concludes_closing (p := q) rfl ran
    rcases run_layOut_whole first with
      ⟨_,rfl,rfl,rfl⟩ | ⟨_,index,line,report,files,after,_,_,_,_,placed,rfl,rfl⟩
    · exact ⟨rfl,rfl,⟨s,now,kept⟩,[],events,by simp⟩
    · obtain ⟨outcomes,silent⟩ := kept_moveAll placed
      refine ⟨rfl,map_moveAll (fun _ _ _ => rfl) placed,⟨s,now,kept.trans outcomes⟩,
        [c.renamingEvent report],?_,?_,?_⟩
      · rw [events]
        change (after.events ++ [c.renamingEvent report]) ++ _ = _
        rw [silent,List.append_assoc]
      · simp [renamingEvent]
      · simp [cancelled]

end Converter

/-- How many files are done when a call begins. -/
def doneBefore (start : Progress) (files : List Source) : Nat :=
  files.length - (Converter.pendingSources start files).length

/-- The events of a call. It is begun first and finished last, in between each file of the result is
reported once, with its number, and a cancellation if there was one. -/
structure Reported (start : Progress) (files : List Source) (result : RunResult) (events : List Event) :
    Prop where
  ends : ∃ told, events = startEvent start files :: (told ++
      [finishEvent result (doneBefore start files + result.files.length) files.length]) ∧
    ∀ e ∈ told, e.kind ≠ .runStarted ∧ e.kind ≠ .runFinished
  finished : (events.filter fun e => e.kind = .fileFinished) = result.files.mapIdx fun i f =>
    Converter.fileEvent f (doneBefore start files + i + 1) files.length
  cancelled : (events.filter fun e => e.kind = .cancelled) =
    stopEvents result (doneBefore start files + result.files.length) files.length
  renamed : (events.filter fun e => e.kind = .renamingFinished).length ≤ if result.cancelled then 0 else 1

/-- A call has accounted for the files it was given: those that were pending are in the result, in the
order in which they came and up to where the call was cancelled, and the numbers of the result, the
progress and the events go with them. -/
structure Accounted (start : Progress) (files : List Source) (result : RunResult) (v : World) : Prop where
  sources : result.files.map Converted.source <+: Converter.pendingSources start files
  whole : result.cancelled = false →
    result.files.map Converted.source = Converter.pendingSources start files
  tallied : result.Tallied
  number : result.clean + result.flagged + result.failed = result.files.length
  completed : ∃ p, v.progress = some p ∧ ∀ a, p.isCompleted a = true ↔
    start.isCompleted a = true ∨ ∃ f ∈ result.files, f.source = a ∧ f.outcome ≠ .failed
  reported : Reported start files result v.events

section
variable {k : EventKind} {told : List Event}

theorem filter_kind_eq_nil (other : ∀ e ∈ told, e.kind ≠ k) : (told.filter fun e => e.kind = k) = [] := by
  apply List.filter_eq_nil_iff.2
  intro e member same
  exact other e member (of_decide_eq_true same)

theorem filter_kind {only : EventKind} (all : ∀ e ∈ told, e.kind = only) :
    (told.filter fun e => e.kind = k) = if k = only then told else [] := by
  split
  · rename_i same
    exact List.filter_eq_self.2 fun e member => decide_eq_true ((all e member).trans same.symm)
  · rename_i apart
    exact filter_kind_eq_nil fun e member same => apart (same.symm.trans (all e member))

theorem kind_of_mem_stopEvents {result : RunResult} {done total : Nat} {e : Event}
    (member : e ∈ stopEvents result done total) : e.kind = .cancelled := by
  unfold stopEvents at member
  split at member
  · rw [List.mem_singleton.1 member]
    rfl
  · cases member

/-- Events that come in this order report a call. -/
theorem Reported.of_parts {start : Progress} {files : List Source} {result : RunResult} {closed : List Event}
    (kinds : ∀ e ∈ told, e.kind.ofWork = true ∨ e.kind = .fileFinished)
    (reports : (told.filter fun e => e.kind = .fileFinished) = result.files.mapIdx fun i f =>
      Converter.fileEvent f (doneBefore start files + i + 1) files.length)
    (moves : ∀ e ∈ closed, e.kind = .renamingFinished)
    (once : closed.length ≤ if result.cancelled then 0 else 1) :
    Reported start files result (startEvent start files :: ((told ++
      (stopEvents result (doneBefore start files + result.files.length) files.length ++ closed)) ++
        [finishEvent result (doneBefore start files + result.files.length) files.length])) := by
  generalize last : doneBefore start files + result.files.length = done
  have stops (e : Event) (member : e ∈ stopEvents result done files.length) : e.kind = .cancelled :=
    kind_of_mem_stopEvents member
  have working (k : EventKind) (idle : k.ofWork = false) (other : k ≠ .fileFinished) (e : Event)
      (member : e ∈ told) : e.kind ≠ k := by
    rintro rfl
    rcases kinds e member with work | file
    · exact Bool.false_ne_true (idle.symm.trans work)
    · exact other file
  have none_ (k : EventKind) (idle : k.ofWork = false) (other : k ≠ .fileFinished) :
      (told.filter fun e => e.kind = k) = [] := filter_kind_eq_nil (working k idle other)
  -- A kind that stands in one part only is filtered out of the others.
  have filters (k : EventKind) (starts : k ≠ .runStarted) (ends : k ≠ .runFinished) :
      (startEvent start files :: ((told ++ (stopEvents result done files.length ++ closed)) ++
        [finishEvent result done files.length])).filter (fun e => e.kind = k) =
        told.filter (fun e => e.kind = k) ++ ((if k = .cancelled then stopEvents result done files.length else [])
          ++ if k = .renamingFinished then closed else []) := by
    have first_ : ([startEvent start files].filter fun e => e.kind = k) = [] :=
      (filter_kind (by simp [startEvent])).trans (if_neg starts)
    have last_ : ([finishEvent result done files.length].filter fun e => e.kind = k) = [] :=
      (filter_kind (by simp [finishEvent])).trans (if_neg ends)
    rw [← List.singleton_append,List.filter_append,List.filter_append,List.filter_append,List.filter_append,
      first_,last_,filter_kind stops,filter_kind moves,List.nil_append,List.append_nil]
  refine ⟨⟨_,by rw [last],?_⟩,?_,?_,?_⟩
  · intro e member
    rcases List.mem_append.1 member with inner | other
    · exact ⟨working _ rfl (by decide) e inner,working _ rfl (by decide) e inner⟩
    · rcases List.mem_append.1 other with cancelled | moved
      · rw [stops e cancelled]
        decide
      · rw [moves e moved]
        decide
  · rw [filters .fileFinished (by decide) (by decide),reports]
    simp
  · rw [filters .cancelled (by decide) (by decide),none_ _ rfl (by decide),last]
    simp
  · rw [filters .renamingFinished (by decide) (by decide),none_ _ rfl (by decide)]
    simpa using once

end

namespace Converter
variable {c : Converter} {start : Progress} {w v : World} {files : List Source} {result : RunResult}

theorem run_begin_events (c : Converter) (start : Progress) (files : List Source) (w : World) :
    ∃ u, (c.begin start files).run.run w = (.ok (),u) ∧
    u.progress = some { start with total := max start.total files.length } ∧
    u.events = w.events ++ [startEvent start files] := by
  refine ⟨_,rfl,rfl,?_⟩
  unfold startEvent pendingSources
  rw [List.length_map]
  rfl

/-- What was recorded are the files of the result, whatever has become of their places. -/
theorem Completes.iff_of_bare {p q : Progress} {found last : List Converted}
    (completes : Completes p q found) (fresh : ∀ f ∈ found, p.isCompleted f.source = false)
    (bare : last.map Converted.bare = found.map Converted.bare) (a : Text) :
    q.isCompleted a = true ↔ p.isCompleted a = true ∨ ∃ f ∈ last, f.source = a ∧ f.outcome ≠ .failed := by
  have seen (l : List Converted) : (∃ f ∈ l, f.source = a ∧ f.outcome ≠ .failed) ↔
      ∃ e ∈ l.map fun f => (f.source,f.outcome), e.1 = a ∧ e.2 ≠ .failed := by
    constructor
    · rintro ⟨f,member,told⟩
      exact ⟨_,List.mem_map_of_mem member,told⟩
    · rintro ⟨_,member,told⟩
      obtain ⟨f,inside,rfl⟩ := List.mem_map.1 member
      exact ⟨f,inside,told⟩
  rw [seen last,Converted.map_of_bare (fun _ => rfl) bare,← seen found,completes a]
  constructor
  · rintro (⟨before,_⟩ | ⟨f,member,same,completed⟩)
    · exact .inl before
    · exact .inr ⟨f,member,same,of_decide_eq_true completed⟩
  · rintro (before | ⟨f,member,same,completed⟩)
    · refine .inl ⟨before,fun member => ?_⟩
      obtain ⟨f,inside,rfl⟩ := List.mem_map.1 member
      exact Bool.false_ne_true ((fresh f inside).symm.trans before)
    · exact .inr ⟨f,member,same,decide_eq_true completed⟩

theorem accounted_runFrom (fresh : w.events = []) (normal : ∀ f ∈ files, (Path.ofText f.1).toText = f.1)
    (distinct : (files.map Prod.fst).Nodup)
    (ran : (c.runFrom start files).run.run w = (.ok result,v)) : Accounted start files result v := by
  obtain ⟨u,begun,now,started⟩ := c.run_begin_events start files w
  rw [fresh,List.nil_append] at started
  rw [runFrom_eq,run_bind,begun] at ran
  obtain ⟨r,worked,first,ran⟩ := ok_of_run_bind ran
  have pending : (c.pendingGroups start files).flatten.map Prod.fst = pendingSources start files :=
    congrArg (List.map Prod.fst) (c.flatten_pendingGroups start files)
  obtain ⟨found,q,between,accounts,held,cancels,count,counted,before,whole⟩ := accounts_convertGroups now
    (fun f member => normal f (mem_of_mem_pendingGroups member))
    (pending ▸ (sublist_pendingSources start files).nodup distinct) rfl first
  have concludes := concludes_conclude held ran
  have long : (files.filter fun f => !start.isCompleted f.1).length = (pendingSources start files).length :=
    (List.length_map _).symm
  rw [pending] at before whole
  rw [long] at count accounts
  -- The last move has changed the files of the result, but nothing that is said of them elsewhere.
  have bare : result.files.map Converted.bare = found.map Converted.bare := by
    rw [concludes.bare,counted,RunResult.files_foldl]
    rfl
  have sources : result.files.map Converted.source = found.map Converted.source :=
    Converted.map_of_bare (fun _ => rfl) bare
  have size : found.length = result.files.length := by
    simpa using (congrArg List.length bare).symm
  have still : r.2.cancelled = result.cancelled := by rw [concludes.same]
  have recorded : r.2.Tallied := by
    rw [counted]
    exact (RunResult.Tallied.foldl ⟨rfl,rfl,rfl,rfl,rfl⟩ found).moved rfl
  have tallied : result.Tallied := by
    rw [concludes.same]
    exact recorded.moved concludes.bare
  obtain ⟨s,now_,outcomes⟩ := concludes.held
  refine ⟨?_,?_,tallied,tallied.total,⟨s,now_,fun a => ?_⟩,?_⟩
  · rw [sources]
    exact before
  · intro going
    exact sources.trans (whole (still.trans going))
  · rw [Progress.isCompleted_congr outcomes]
    exact accounts.completes.iff_of_bare
      (fun f member => isCompleted_of_pending (before.subset (List.mem_map_of_mem member))) bare a
  · obtain ⟨told,events,kinds,reports⟩ := accounts.events
    obtain ⟨closed,ends,moves,once⟩ := concludes.events
    rw [still] at cancels once
    rw [← Converted.mapIdx_of_bare (fun _ _ => rfl) bare] at reports
    rw [ends,cancels,events,started,count,size]
    simpa [stopEvents,doneBefore] using Reported.of_parts kinds reports moves once

theorem run_probe {u : Unit} (ran : c.probe.run.run w = (.ok u,v)) : v = w := by
  unfold probe at ran
  cases reached : c.service.probe with
  | error why =>
    rw [reached] at ran
    cases ran
  | ok _ =>
    rw [reached] at ran
    cases ran
    rfl

end Converter

/-- Whatever the service answers, and whenever it is cancelled, a call that returns has accounted for
its files. -/
theorem Call.accounted (call : Call) (fresh : call.before.events = [])
    (distinct : ∀ files, call.files? = some files → ((Converter.normalized files).map Prod.fst).Nodup)
    {result : RunResult} (returned : call.result = .ok result) :
    ∃ files, call.files? = some files ∧
      Accounted call.start (Converter.normalized files) result call.after := by
  have ran := call.ran
  rw [returned] at ran
  cases found : call.files? with
  | none =>
    rw [run_none found] at ran
    cases ran
  | some files =>
    obtain ⟨id,begins,same,opened⟩ := run_eq found
    rw [opened,Converter.runProject_eq] at ran
    obtain ⟨_,between,probed,ran⟩ := ok_of_run_bind ran
    rw [Converter.run_probe probed,← same] at ran
    exact ⟨files,rfl,Converter.accounted_runFrom fresh (fun f => Converter.normal_of_mem)
      (distinct files found) ran⟩

/-! A call that is stopped on its way: one file was done before, one is converted, and one fails. -/
namespace Partway

def converter : Converter :=
  { Collision.converter (.failed "quota") with
    watches := [{ kind := .fileFinished, nth := 2, command := .cancel }] }

def files : List Source := [("D.src","y\n"),("A.src","class B\n"),("B.src","x\n"),("C.src","class B\n")]

def call : Call where
  converter := converter
  order := .resume { converter.newProgress "s" 4 with outcomes := [("D.src",.clean)] } (some files)
  before := {}

end Partway

theorem Call.accounted_partway : ∃ result, Partway.call.result = .ok result ∧
    result.cancelled = true ∧ result.files.map Converted.source = [("A.src" : Text),"B.src"] ∧
    Accounted Partway.call.start (Converter.normalized Partway.files) result Partway.call.after := by
  have told : Partway.call.result.toOption.any (fun r => r.cancelled &&
      decide (r.files.map Converted.source = [("A.src" : Text),"B.src"])) = true := by decide +kernel
  obtain ⟨result,returned,shape⟩ := Converter.Resumption.ok_of_any told
  obtain ⟨cancelled,sources⟩ := Bool.and_eq_true_iff.1 shape
  obtain ⟨files,found,accounted⟩ := Partway.call.accounted rfl
    (fun files found => by cases found; decide +kernel) returned
  cases found
  exact ⟨result,returned,cancelled,of_decide_eq_true sources,accounted⟩

end Recast
