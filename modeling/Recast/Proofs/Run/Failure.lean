import Recast.Dialogue.Script
import Recast.Proofs.Dialogue.Session
import Recast.Proofs.Run.Stages
import Recast.Target.Blocks

/-! Which errors end a run. A service that fails is noticed wherever a file is converted on its own
and wherever a group is converted together; nothing notices it while the parts of a merged answer
are checked and repaired. -/
namespace Recast
open Steps

namespace Repairer
variable (r : Repairer)

section
variable {allowed : TalkError → Prop}
  (asks : ∀ request, Obeys (r.session.service.ask request) (fun _ => True) allowed)
include asks

theorem obeys_requestFix (ls : List Text) (place : Nat) (issue : Issue) :
    Obeys (r.requestFix ls place issue) (fun _ => True) allowed := by
  unfold requestFix
  refine Obeys.get.bind fun state _ => ?_
  have told := r.session.ends_convert asks (instruction r.session.language.target) ((ls[place]?).getD [])
    (context ls place issue) (state.history.getD r.session.newHistory) state.line
  dsimp only
  generalize (r.session.convert (instruction r.session.language.target) ((ls[place]?).getD [])
    (context ls place issue) (state.history.getD r.session.newHistory)).run.run state.line = answer at told
  obtain ⟨result,line⟩ := answer
  refine (Obeys.set _).bind fun _ _ => ?_
  cases result with
  | ok found => exact (Obeys.set _).bind fun _ _ => .pure trivial
  | error e =>
    cases e with
    | incomplete attempts code => exact .pure trivial
    | service why => exact .throw (told.resolve_right (by simp))
    | notText => exact .throw (told.resolve_right (by simp))

theorem obeys_fix (p : Patch) (issue : Issue) :
    Obeys (r.fix p issue) (fun _ => True) allowed := by
  unfold fix
  split
  · exact .pure trivial
  · refine (Obeys.modify _).bind fun _ _ => ?_
    refine (r.obeys_requestFix asks _ _ _).bind fun found _ => ?_
    split
    · exact .pure trivial
    · split
      · exact .pure trivial
      · exact Obeys.map ((Obeys.modify _).bind fun _ _ => .pure trivial) fun _ h => h

theorem obeys_pass (issues : List Issue) (p : Patch) :
    Obeys (r.pass issues p) (fun _ => True) allowed := by
  induction issues generalizing p with
  | nil => exact .pure trivial
  | cons issue rest ih =>
    refine (r.obeys_fix asks p issue).bind fun found _ => ?_
    split
    · exact ih _
    · split
      · exact .pure trivial
      · exact ih _

/-- A repair ends with no error but those of the service. -/
theorem obeys_passes (left depth : Nat) (code : Text) (issues : List Issue) :
    Obeys (r.passes left depth code issues) (fun _ => True) allowed := by
  have gaveUp : Obeys exhausted (fun _ => True) allowed := fun _ => trivial
  have done (code : Text) : Obeys (finished code) (fun _ => True) allowed := fun _ => trivial
  induction left generalizing depth code issues with
  | zero =>
    unfold passes
    refine (Obeys.modify _).bind fun _ _ => ?_
    split
    · exact done _
    · exact gaveUp
  | succ left ih =>
    unfold passes
    refine (Obeys.modify _).bind fun _ _ => ?_
    split
    · exact done _
    · refine (r.obeys_pass asks _ _).bind fun p _ => ?_
      split
      · exact gaveUp
      · split
        · exact done _
        · exact ih _ _ _

end

end Repairer

namespace RunError

/-- Something stands in the way of a run that no service has to do with: a path, a file, a
checkpoint, or code that a parser gives up on. -/
def Hindrance : RunError → Prop
  | .talk _ | .cancelled => False
  | .noExtension | .noPattern | .misplaced | .file _ | .store _ => True

/-- A file or a checkpoint cannot be read or written. -/
def OfFiles : RunError → Prop
  | .file _ | .store _ => True
  | _ => False

theorem OfFiles.hindrance {e : RunError} (fault : e.OfFiles) : e.Hindrance := by
  cases e with
  | file f => trivial
  | store s => trivial
  | _ => exact fault.elim

/-- The service failed. -/
def Failed (e : RunError) : Prop := ∃ why, e = .talk (.service why)

/-- The run was cancelled, or something stands in its way. -/
def Halted (e : RunError) : Prop := e = .cancelled ∨ e.Hindrance

/-- The run was halted, or the service failed. -/
def Broken (e : RunError) : Prop := e.Halted ∨ e.Failed

end RunError

namespace Run
variable {α : Type}

theorem obeys_talk {talked : Talk α} {good : α → Prop} {allowed : TalkError → Prop}
    {wider : RunError → Prop} (obeys : Obeys talked good allowed)
    (errors : ∀ e, allowed e → wider (.talk e)) : Obeys (talk talked) good wider := by
  intro w
  have told := obeys w.line
  rw [run_talk]
  cases same : (talked.run.run w.line).1 with
  | ok a =>
    rw [same] at told
    exact told
  | error e =>
    rw [same] at told
    exact errors e told

/-- A step that is observed does not fail; its error is told. -/
theorem obeys_observe {step : Run α} {good : α → Prop} {allowed : RunError → Prop}
    {none_ : RunError → Prop} (obeys : Obeys step good allowed) :
    Obeys (observe step) (fun r => match r with
      | .ok a => good a
      | .error e => allowed e) none_ := by
  intro w
  have told := obeys w
  rw [run_observe]
  cases same : (step.run.run w).1 with
  | ok a =>
    rw [same] at told
    exact told
  | error e =>
    rw [same] at told
    exact told

theorem obeys_emit (watches : List Watch) (e : Event) (allowed : RunError → Prop) :
    Obeys (emit watches e) (fun _ => True) allowed := fun _ => trivial

theorem obeys_poll (watches : List Watch) :
    Obeys (poll watches) (fun _ => True) (· = .cancelled) := by
  have looked : Obeys control (fun _ => True) (· = RunError.cancelled) := fun _ => trivial
  have waited : Obeys wait (fun _ => True) (· = RunError.cancelled) := fun _ => trivial
  have ends : Obeys (do if (← control).cancelled then throw .cancelled : Run Unit)
      (fun _ => True) (· = RunError.cancelled) := by
    refine looked.bind fun now _ => ?_
    split
    · exact .throw rfl
    · exact .pure trivial
  unfold poll
  refine looked.bind fun now _ => ?_
  dsimp only
  split
  · refine (obeys_emit _ _ _).bind fun _ _ => waited.bind fun _ _ => looked.bind fun later _ => ?_
    split
    · exact (obeys_emit _ _ _).bind fun _ _ => ends
    · exact ends
  · exact ends

theorem obeys_files (change : Tree → Except FileFault Tree) :
    Obeys (files change) (fun _ => True) RunError.OfFiles := by
  intro w
  unfold files
  rw [run_bind,run_get]
  dsimp only
  cases change w.tree with
  | ok t => trivial
  | error fault => trivial

end Run

theorem Bundle.map_fst_of_split? {code : Text} {paths : List Text} {parts : List (Text × Text)}
    (apart : split? code paths = some parts) : parts.map Prod.fst = paths := by
  unfold split? at apart
  simp only at apart
  split at apart
  · rename_i same
    simp only [Bool.and_eq_true,decide_eq_true_eq] at same
    cases apart
    exact same.1.1
  · cases apart

namespace Converter
open RunError
variable (c : Converter)

theorem obeys_poll : Obeys c.poll (fun _ => True) Halted :=
  (Run.obeys_poll c.watches).mono (fun _ h => h) fun _ => .inl

theorem obeys_emit (e : Event) (allowed : RunError → Prop) :
    Obeys (c.emit e) (fun _ => True) allowed := Run.obeys_emit c.watches e allowed

theorem obeys_convertText (prompt text context : Text) (history : History) :
    Obeys (c.convertText prompt text context history) (fun _ => True) Failed := by
  have talked : Obeys (Run.talk (c.session.convert prompt text context history)) (fun _ => True)
      fun e => ∃ t : TalkError, t.Ended ∧ e = .talk t :=
    Run.obeys_talk (c.session.obeys_convert prompt text context history) fun t ended => ⟨t,ended,rfl⟩
  unfold convertText
  refine (Run.obeys_observe talked).bind fun r told => ?_
  cases r with
  | ok found => exact .pure trivial
  | error e =>
    obtain ⟨t,⟨why,rfl⟩ | ⟨attempts,code,rfl⟩,rfl⟩ := told
    · exact .throw ⟨why,rfl⟩
    · exact .pure trivial

theorem obeys_convertBodies (context : Text) (bodies : List Text) (history : History) :
    Obeys (c.convertBodies context bodies history) (fun _ => True) Broken := by
  induction bodies generalizing history with
  | nil => exact .pure trivial
  | cons body rest ih =>
    unfold convertBodies
    refine (c.obeys_poll.mono (fun _ h => h) fun _ => .inl).bind fun _ _ => ?_
    refine ((c.obeys_convertText _ _ _ _).mono (fun _ h => h) fun _ => .inr).bind fun _ _ => ?_
    exact (ih _).bind fun _ _ => .pure trivial

theorem obeys_convertChunk (chunk : Chunk) (context : Text) (history : History) :
    Obeys (c.convertChunk chunk context history) (fun _ => True) Broken := by
  have text (prompt code context : Text) (history : History) :
      Obeys (c.convertText prompt code context history) (fun _ => True) Broken :=
    (c.obeys_convertText _ _ _ _).mono (fun _ h => h) fun _ => .inr
  unfold convertChunk
  split
  · unfold convertOutline
    refine (text _ _ _ _).bind fun _ _ => ?_
    exact (c.obeys_convertBodies _ _ _).bind fun _ _ => .pure trivial
  · exact text _ _ _ _

theorem obeys_convertChunks (source context : Text) (total : Nat) (chunks : List Chunk)
    (history : History) :
    Obeys (c.convertChunks source context total chunks history) (fun _ => True) Broken := by
  induction chunks generalizing history with
  | nil => exact .pure trivial
  | cons chunk rest ih =>
    unfold convertChunks
    refine (c.obeys_poll.mono (fun _ h => h) fun _ => .inl).bind fun _ _ => ?_
    refine (c.obeys_convertChunk _ _ _).bind fun _ _ => ?_
    refine (c.obeys_emit _ _).bind fun _ _ => ?_
    exact (ih _).bind fun _ _ => .pure trivial

theorem obeys_repairOnce (code : Text) (issues : List Issue) (history : History) :
    Obeys (c.repairOnce code issues history) (fun _ => True) Failed := by
  intro w
  have told := c.repairer.obeys_passes Service.obeys_ask c.repairer.maxDepth 0 code issues
    { line := w.line, history := some history, best := (code,issues) }
  rw [run_repairOnce,Repairer.repair]
  cases same : ((c.repairer.passes c.repairer.maxDepth 0 code issues).run.run
    { line := w.line, history := some history, best := (code,issues) }).1 with
  | ok a => trivial
  | error e =>
    rw [same] at told
    obtain ⟨why,rfl⟩ := told
    exact ⟨why,rfl⟩

theorem obeys_repairRounds (source : Text) (history : History) (left done : Nat) (code : Text)
    (issues : List Issue) :
    Obeys (c.repairRounds source history left done code issues) (fun _ => True) Broken := by
  induction left generalizing done code issues with
  | zero =>
    unfold repairRounds
    split
    · exact .pure trivial
    · exact .pure trivial
  | succ left ih =>
    have confirmed : Obeys (c.confirmRepair code issues history) (fun _ => True) Broken :=
      Run.obeys_talk (c.session.obeys_confirm Service.obeys_ask _ _ _) fun t ⟨why,same⟩ => .inr ⟨why,same ▸ rfl⟩
    unfold repairRounds
    split
    · exact .pure trivial
    · refine (c.obeys_poll.mono (fun _ h => h) fun _ => .inl).bind fun _ _ => ?_
      refine confirmed.bind fun wanted _ => ?_
      split
      · refine ((c.obeys_repairOnce _ _ _).mono (fun _ h => h) fun _ => .inr).bind fun _ _ => ?_
        exact (c.obeys_emit _ _).bind fun _ _ => ih _ _ _
      · exact .pure trivial

theorem obeys_saveTranscript (source : Text) (history : History) :
    Obeys (c.saveTranscript source history) (fun _ => True) OfFiles := by
  unfold saveTranscript
  split
  · exact Run.obeys_files _
  · exact .pure trivial

/-- The file stands for a source that goes to an output. -/
def From (source output : Text) (f : Converted) : Prop := f.source = source ∧ f.output = output

theorem obeys_finish (source output content code : Text) (failed : List Int) (history : History) :
    Obeys (c.finish source output content code failed history) (From source output) Broken := by
  unfold finish
  split
  · exact .pure ⟨rfl,rfl⟩
  · refine (c.obeys_repairRounds _ _ _ _ _ _).bind fun _ _ => ?_
    refine ((c.obeys_saveTranscript _ _).mono (fun _ h => h) fun _ h => .inl (.inr h.hindrance)).bind
      fun _ _ => ?_
    exact .pure ⟨rfl,rfl⟩

theorem obeys_summaryContext (given : Text) (allowed : RunError → Prop) :
    Obeys (c.summaryContext given) (fun _ => True) allowed := by
  unfold summaryContext
  split
  · exact .pure trivial
  · exact Obeys.get.bind fun _ _ => .pure trivial

theorem obeys_convertOnce (source output content given : Text) :
    Obeys (c.convertOnce source output content given) (From source output) Broken := by
  unfold convertOnce
  refine (c.obeys_summaryContext _ _).bind fun _ _ => ?_
  refine (c.obeys_convertChunks _ _ _ _ _).bind fun _ _ => ?_
  exact c.obeys_finish _ _ _ _ _ _

/-- A file on its own is not given up when the service fails. -/
theorem obeys_retry {once : Run Converted} {failure : Text → Converted} {good : Converted → Prop}
    {allowed : RunError → Prop} (obeys : Obeys once good fun e => allowed e ∨ e.Failed)
    (gaveUp : ∀ why, good (failure why)) (left tried : Nat) :
    Obeys (c.retry once failure left tried) good allowed := by
  have other {e : RunError} (told : allowed e ∨ e.Failed) (kind : ∀ why, e ≠ .talk (.service why)) : allowed e :=
    told.resolve_right fun ⟨why,same⟩ => kind why same
  induction left generalizing tried with
  | zero =>
    unfold retry
    refine (Run.obeys_observe obeys).bind fun r told => ?_
    split
    · exact .pure told
    · exact .pure (gaveUp _)
    · rename_i kind
      exact .throw (other told kind)
  | succ left ih =>
    unfold retry
    refine (Run.obeys_observe obeys).bind fun r told => ?_
    split
    · exact .pure told
    · exact (Obeys.modify _).bind fun _ _ => ih _
    · rename_i kind
      exact .throw (other told kind)

theorem obeys_convertFile (path content given : Text) :
    Obeys (c.convertFile path content given) (fun f => f.source = (Path.ofText path).toText ∧
      c.outputOf? f.source = some f.output) Halted := by
  unfold convertFile
  dsimp only
  split
  · exact .throw (.inr trivial)
  · rename_i output named
    have once := c.obeys_convertOnce (Path.ofText path).toText output content given
    refine (c.obeys_retry once (fun _ => ⟨rfl,rfl⟩) _ _).mono (fun f same => ?_) fun _ h => h
    rw [same.1,same.2]
    exact ⟨rfl,named⟩

/-- Converted files, one for each of some sources, each with the output that its source goes to. -/
def Covers (sources : List Text) (found : List Converted) : Prop :=
  found.map Converted.source = sources ∧ ∀ f ∈ found, c.outputOf? f.source = some f.output

variable {c} in
theorem Covers.cons {sources : List Text} {found : List Converted} (covers : c.Covers sources found)
    {source : Text} {f : Converted} (same : f.source = source)
    (named : c.outputOf? f.source = some f.output) : c.Covers (source :: sources) (f :: found) := by
  refine ⟨by rw [List.map_cons,same,covers.1],fun g member => ?_⟩
  rcases List.mem_cons.1 member with rfl | later
  · exact named
  · exact covers.2 g later

theorem obeys_convertEach (files : List Source) :
    Obeys (c.convertEach files) (c.Covers (files.map fun f => (Path.ofText f.1).toText)) Halted := by
  induction files with
  | nil => exact .pure ⟨rfl,by simp⟩
  | cons f rest ih =>
    refine (c.obeys_convertFile _ _ _).bind fun found same => ih.bind fun more others => ?_
    exact .pure (others.cons same.1 same.2)

/-- Files are never given up because they were sent together; the parts of an answer stand for
them. -/
theorem obeys_convertMerged (files : List Source) :
    Obeys (c.convertMerged files) (fun r => ∀ found, r = some found → found.1.length = files.length)
      fun _ => False := by
  have talked (prompt context : Text) :
      Obeys (Run.talk (c.session.convert prompt (Bundle.join files) context c.session.newHistory))
        (fun _ => True) fun e => ∃ t : TalkError, t.Ended ∧ e = .talk t :=
    Run.obeys_talk (c.session.obeys_convert _ _ _ _) fun t ended => ⟨t,ended,rfl⟩
  unfold convertMerged
  refine (c.obeys_summaryContext _ _).bind fun context _ => ?_
  refine (Run.obeys_observe (talked _ _)).bind fun r told => ?_
  cases r with
  | ok found =>
    refine .pure fun parts same => ?_
    obtain ⟨apart,split,rfl⟩ := Option.map_eq_some_iff.1 same
    simpa using congrArg List.length (Bundle.map_fst_of_split? split)
  | error e =>
    obtain ⟨t,⟨why,rfl⟩ | ⟨attempts,code,rfl⟩,rfl⟩ := told
    · exact .pure fun _ none_ => by cases none_
    · exact .pure fun _ none_ => by cases none_

theorem obeys_finishEach (history : History) (files : List (Source × Text)) :
    Obeys (c.finishEach history files) (c.Covers (files.map fun f => f.1.1)) Broken := by
  induction files with
  | nil => exact .pure ⟨rfl,by simp⟩
  | cons f rest ih =>
    unfold finishEach
    split
    · exact .throw (.inl (.inr trivial))
    · rename_i named
      refine (c.obeys_finish _ _ _ _ _ _).bind fun found same => ih.bind fun more others => ?_
      exact .pure (others.cons same.1 (by rw [same.1,same.2]; exact named))

theorem obeys_groupWork (files : List Source)
    (normal : ∀ f ∈ files, (Path.ofText f.1).toText = f.1) :
    Obeys (c.groupWork files) (c.Covers (files.map Prod.fst)) Broken := by
  have each : Obeys (c.convertEach files) (c.Covers (files.map Prod.fst)) Broken := by
    refine (c.obeys_convertEach files).mono (fun found covers => ?_) fun _ => .inl
    rwa [List.map_congr_left normal] at covers
  unfold groupWork convertGroup
  refine (c.obeys_poll.mono (fun _ h => h) fun _ => .inl).bind fun _ _ => ?_
  refine (c.obeys_emit _ _).bind fun _ _ => ?_
  split
  · exact each
  · refine ((c.obeys_convertMerged _).mono (fun _ h => h) fun _ none_ => none_.elim).bind
      fun found lengths => ?_
    split
    · exact each
    · rename_i parts history
      refine (c.obeys_finishEach history _).mono (fun found covers => ?_) fun _ h => h
      have paired : files.length ≤ parts.length := Nat.le_of_eq (lengths _ rfl).symm
      have firsts : ((files.map fun f => (f.1,contentOf files f.1)).zip parts).map Prod.fst = _ :=
        List.map_fst_zip (by simpa using paired)
      have sources := congrArg (List.map Prod.fst) firsts
      rw [List.map_map,List.map_map] at sources
      exact sources ▸ covers

theorem not_halted {t : TalkError} : ¬ (talk t).Halted := fun halted => by
  rcases halted with same | none_
  · cases same
  · exact none_

/-- The files of a group, sent together, come back as an answer that comes apart, and then the
service fails while its parts are checked and repaired. -/
def FailsApart (files : List Source) (w : World) : Prop :=
  files.length ≠ 1 ∧ ∃ parts history between why later,
    (c.sentTogether files).run.run w = (.ok (some (parts,history)),between) ∧
    (c.tookApart files (some (parts,history))).run.run between = (.error (.talk (.service why)),later)

/-- A service that fails breaks the work on a group only while the parts of an answer are checked. -/
theorem groupWork_failed_iff (files : List Source) (w : World) :
    (∃ t later, (c.groupWork files).run.run w = (.error (.talk t),later)) ↔ c.FailsApart files w := by
  have poll := c.obeys_poll
  by_cases many : files.length ≠ 1
  · have sent : Obeys (c.sentTogether files) (fun _ => True) Halted :=
      c.obeys_poll.bind fun _ _ => (c.obeys_emit _ _).bind fun _ _ =>
        (c.obeys_convertMerged files).mono (fun _ _ => trivial) fun _ none_ => none_.elim
    rw [c.groupWork_eq many,FailsApart]
    constructor
    · rintro ⟨t,later,failed⟩
      rw [run_bind] at failed
      cases first : (c.sentTogether files).run.run w with
      | mk r between =>
        rw [first] at failed
        cases r with
        | error e =>
          cases failed
          exact absurd (sent.error first) not_halted
        | ok found =>
          cases found with
          -- An answer that does not come apart leaves its files to be converted one by one.
          | none => exact absurd ((c.obeys_convertEach files).error failed) not_halted
          | some found =>
            rcases (c.obeys_finishEach _ _).error failed with halted | ⟨why,same⟩
            · exact absurd halted not_halted
            · cases same
              exact ⟨many,found.1,found.2,between,why,later,rfl,failed⟩
    · rintro ⟨_,parts,history,between,why,later,first,failed⟩
      exact ⟨.service why,later,by rw [run_bind,first]; exact failed⟩
  · have alone : Obeys (c.groupWork files) (fun _ => True) Halted := by
      obtain ⟨f,rfl⟩ := List.length_eq_one_iff.1 (Decidable.not_not.1 many)
      exact c.obeys_poll.bind fun _ _ => (c.obeys_emit _ _).bind fun _ _ =>
        (c.obeys_convertEach [f]).mono (fun _ _ => trivial) fun _ h => h
    constructor
    · rintro ⟨t,later,failed⟩
      exact absurd (alone.error failed) not_halted
    · rintro ⟨more,_⟩
      exact absurd more many

theorem obeys_withProgress {f : Progress → Run Unit} {allowed : RunError → Prop}
    (obeys : ∀ p, Obeys (f p) (fun _ => True) allowed) :
    Obeys (withProgress f) (fun _ => True) allowed := by
  unfold withProgress
  refine Obeys.get.bind fun w _ => ?_
  split
  · exact obeys _
  · exact .pure trivial

theorem obeys_saveProgress : Obeys c.saveProgress (fun _ => True) OfFiles := by
  unfold saveProgress
  refine obeys_withProgress fun p => Obeys.get.bind fun w _ => ?_
  refine (Obeys.modify _).bind fun _ _ => Obeys.get.bind fun w _ => ?_
  split
  · exact Obeys.modify _
  · exact .throw trivial

theorem obeys_enter (f : Converted) (done total : Nat) :
    Obeys (c.enter f done total) (fun _ => True) OfFiles :=
  (obeys_withProgress fun _ => Obeys.modify _).bind fun _ _ =>
    c.obeys_saveProgress.bind fun _ _ => c.obeys_emit _ _

section
variable {c} (sends : c.service.SendsTexts)
include sends

theorem obeys_summarize (f : Converted) (allowed : RunError → Prop) :
    Obeys (c.summarize f) (fun _ => True) allowed := by
  have talked : Obeys (Run.talk (c.session.summarize f.output f.content)) (fun _ => True) Failed :=
    Run.obeys_talk (Session.obeys_summarize sends f.output f.content) fun t ⟨why,same⟩ => ⟨why,same ▸ rfl⟩
  unfold summarize
  split
  · refine (Run.obeys_observe talked).bind fun r told => ?_
    split
    · exact obeys_withProgress fun _ => Obeys.modify _
    · exact .pure trivial
    · rename_i e other
      obtain ⟨why,rfl⟩ := told
      exact absurd rfl (other why)
  · exact .pure trivial

theorem obeys_record (f : Converted) (done total : Nat) :
    Obeys (c.record f done total) (fun _ => True) OfFiles := by
  by_cases completed : f.outcome.completed = true
  · rw [c.record_completed completed]
    refine (obeys_withProgress fun _ => Run.obeys_files _).bind fun _ _ => ?_
    refine (Obeys.modify _).bind fun _ _ => ?_
    exact (obeys_summarize sends f OfFiles).bind fun _ _ => c.obeys_enter f done total
  · rw [c.record_failed completed]
    exact c.obeys_enter f done total

theorem obeys_recordEach (total : Nat) (files : List Converted) (done : Nat) (result : RunResult) :
    Obeys (c.recordEach total files done result)
      (fun r => r.2.files = result.files ++ files ∧ r.2.cancelled = result.cancelled) OfFiles := by
  induction files generalizing done result with
  | nil => exact .pure ⟨(List.append_nil _).symm,rfl⟩
  | cons f rest ih =>
    unfold recordEach
    refine (obeys_record sends f _ _).bind fun _ _ => (ih _ _).mono (fun r told => ?_) fun _ h => h
    exact ⟨by simpa using told.1,told.2.trans (result.cancelled_add f)⟩

end

/-- The work on groups of files comes to a group: all before it were converted and recorded. -/
inductive Comes (total : Nat) : List (List Source) → Nat → RunResult → World → List Source → World → Prop
  | here {group : List Source} {rest : List (List Source)} {done : Nat} {result : RunResult}
      {w : World} : Comes total (group :: rest) done result w group w
  | later {first group : List Source} {rest : List (List Source)} {done next : Nat}
      {result more : RunResult} {files : List Converted} {w between after before : World} :
      (c.groupWork first).run.run w = (.ok files,between) →
      (c.recordEach total files done result).run.run between = (.ok (next,more),after) →
      Comes total rest next more after group before →
      Comes total (first :: rest) done result w group before

variable {c} in
theorem Comes.failed {total : Nat} {groups : List (List Source)} {done : Nat} {result : RunResult}
    {w before : World} {group : List Source} (comes : c.Comes total groups done result w group before)
    (fails : c.FailsApart group before) :
    ∃ t later, (c.convertGroups total groups done result).run.run w = (.error (.talk t),later) := by
  induction comes with
  | here =>
    obtain ⟨t,later,same⟩ := (c.groupWork_failed_iff _ _).2 fails
    rw [run_convertGroups,same]
    exact ⟨t,later,rfl⟩
  | later worked recorded _ ih =>
    obtain ⟨t,later,same⟩ := ih fails
    rw [run_convertGroups,worked]
    dsimp only
    rw [run_bind,recorded]
    exact ⟨t,later,same⟩

section
variable {c} (sends : c.service.SendsTexts)
include sends

theorem comes_of_failed {total : Nat} {groups : List (List Source)} {done : Nat} {result : RunResult}
    {w later : World} {t : TalkError}
    (failed : (c.convertGroups total groups done result).run.run w = (.error (.talk t),later)) :
    ∃ group before, c.Comes total groups done result w group before ∧ c.FailsApart group before := by
  induction groups generalizing done result w with
  | nil => cases failed
  | cons first rest ih =>
    rw [run_convertGroups] at failed
    cases worked : (c.groupWork first).run.run w with
    | mk r between =>
      rw [worked] at failed
      cases r with
      | error e =>
        cases e with
        | talk t => exact ⟨first,w,.here,(c.groupWork_failed_iff first w).1 ⟨t,between,worked⟩⟩
        | _ => cases failed
      | ok files =>
        dsimp only at failed
        rw [run_bind] at failed
        cases recorded : (c.recordEach total files done result).run.run between with
        | mk r after =>
          rw [recorded] at failed
          cases r with
          | error e =>
            cases failed
            exact ((obeys_recordEach sends total files done result).error recorded).elim
          | ok r =>
            obtain ⟨group,before,comes,fails⟩ := ih failed
            exact ⟨group,before,.later worked recorded comes,fails⟩

/-- The work on groups ends with a failure of the service exactly where it comes to a group whose
answer comes apart and whose parts the service fails on. -/
theorem convertGroups_failed_iff (total : Nat) (groups : List (List Source)) (done : Nat)
    (result : RunResult) (w : World) :
    (∃ t later, (c.convertGroups total groups done result).run.run w = (.error (.talk t),later)) ↔
      ∃ group before, c.Comes total groups done result w group before ∧ c.FailsApart group before :=
  ⟨fun ⟨_,_,failed⟩ => comes_of_failed sends failed,fun ⟨_,_,comes,fails⟩ => comes.failed fails⟩

/-- What becomes of the files of some groups: all of them are among those of the result, or the run
was cancelled and the first of them are. -/
def Settled (result : RunResult) (sources : List Text) (r : RunResult) : Prop :=
  r.files.map Converted.source <+: result.files.map Converted.source ++ sources ∧
    (r.cancelled = false →
      r.files.map Converted.source = result.files.map Converted.source ++ sources)

theorem obeys_convertGroups (total : Nat) (groups : List (List Source))
    (normal : ∀ f ∈ groups.flatten, (Path.ofText f.1).toText = f.1) (done : Nat)
    (result : RunResult) :
    Obeys (c.convertGroups total groups done result)
      (fun r => Settled result (groups.flatten.map Prod.fst) r.2) fun e => e.Hindrance ∨ e.Failed := by
  induction groups generalizing done result with
  | nil => exact .pure ⟨by simp,fun _ => by simp⟩
  | cons first rest ih =>
    intro w
    rw [run_convertGroups]
    have worked := c.obeys_groupWork first fun f member => normal f (by simp [member])
    cases same : (c.groupWork first).run.run w with
    | mk r between =>
      cases r with
      | error e =>
        have told := worked.error same
        cases e with
        | cancelled => exact ⟨List.prefix_append _ _,fun other => by cases other⟩
        | talk t =>
          rcases told with halted | failed
          · exact absurd halted not_halted
          · exact .inr failed
        | _ => exact .inl trivial
      | ok files =>
        have sources : files.map Converted.source = first.map Prod.fst := (worked.ok same).1
        refine ((obeys_recordEach sends total files done result).mono (fun _ h => h)
          fun _ h => .inl h.hindrance).bind
          (fun r told => ?_) between
        refine (ih (fun f member => normal f (by simp [member])) r.1 r.2).mono (fun more settled => ?_)
          fun _ h => h
        unfold Settled at settled ⊢
        rw [told.1] at settled
        simpa [sources] using settled

theorem obeys_index (files : List (Text × Text)) :
    Obeys (c.namer.index files) (fun _ => True) fun _ => False := by
  have suggested (old content : Text) :
      Obeys (c.namer.suggested old content) (fun _ => True) fun _ => False := by
    unfold Namer.suggested Converter.namer
    split
    · exact .pure trivial
    · rename_i session held
      have own : session = c.session := by
        simp only at held
        split at held
        · exact (Option.some.inj held).symm
        · cases held
      subst own
      refine (Session.obeys_suggestName (s := c.session) sends old content).tryCatch fun e failed => ?_
      obtain ⟨why,rfl⟩ := failed
      exact .pure trivial
  have all (olds : List Text) (fs : List Unnamed) (index : NameIndex) :
      Obeys (c.namer.nameAll olds fs index) (fun _ => True) fun _ => False := by
    induction fs generalizing index with
    | nil => exact .pure trivial
    | cons f rest ih => exact (suggested _ _).bind fun _ _ => ih _
  exact all _ _ _

omit sends in
theorem obeys_moveAll (index : NameIndex) (finals : List Text) (contents : List (Text × Text))
    (p : Progress) (files : List Converted) :
    Obeys (moveAll index finals contents p files)
      (fun r => r.2.map Converted.source = files.map Converted.source) OfFiles := by
  induction contents generalizing p files with
  | nil => exact .pure rfl
  | cons entry rest ih =>
    unfold moveAll
    split
    · exact ih _ _
    · refine (Run.obeys_files _).bind fun _ _ => (Obeys.modify _).bind fun _ _ => ?_
      refine (Obeys.modify _).bind fun _ _ => (ih _ _).mono (fun r same => ?_) fun _ h => h
      have kept (e : Entry) (f : Converted) : (moved e entry.2 f).source = f.source := rfl
      exact same.trans (RunResult.map_updateLast (kept _) files)

theorem obeys_layOut (p : Progress) (result : RunResult) :
    Obeys (c.layOut p result) (fun r => r.2.files.map Converted.source =
      result.files.map Converted.source ∧ r.2.cancelled = result.cancelled) Hindrance := by
  unfold layOut
  refine Obeys.get.bind fun w _ => ?_
  split
  · exact .throw trivial
  · exact .pure ⟨rfl,rfl⟩
  · refine (Run.obeys_talk (obeys_index sends _) fun _ none_ => none_.elim).bind fun index _ => ?_
    split
    · exact .throw trivial
    · refine ((obeys_moveAll _ _ _ _ _).mono (fun _ h => h) fun _ => OfFiles.hindrance).bind
        fun moved same => ?_
      exact (c.obeys_emit _ _).bind fun _ _ => .pure ⟨same,rfl⟩

omit sends in
theorem obeys_closing (total done : Nat) (result : RunResult) :
    Obeys (c.closing total done result) (fun last => last = result) Hindrance :=
  (c.obeys_saveProgress.mono (fun _ h => h) fun _ => OfFiles.hindrance).bind fun _ _ =>
    (c.obeys_emit _ _).bind fun _ _ => .pure rfl

theorem obeys_conclude (total : Nat) (r : Nat × RunResult) :
    Obeys (c.conclude total r) (fun result => result.files.map Converted.source =
      r.2.files.map Converted.source ∧ result.cancelled = r.2.cancelled) Hindrance := by
  unfold conclude
  split
  · exact (c.obeys_closing _ _ _).mono (fun _ same => by rw [same]; exact ⟨rfl,rfl⟩) fun _ h => h
  · refine Obeys.get.bind fun w _ => ?_
    split
    · exact (c.obeys_closing _ _ _).mono (fun _ same => by rw [same]; exact ⟨rfl,rfl⟩) fun _ h => h
    · refine (obeys_layOut sends _ _).bind fun found same => (Obeys.modify _).bind fun _ _ => ?_
      exact (c.obeys_closing _ _ _).mono (fun _ last => by rw [last]; exact same) fun _ h => h

omit sends in
/-- The run comes to a group whose answer comes apart and whose parts the service fails on. -/
def FailsFrom (c : Converter) (start : Progress) (files : List Source) (w : World) : Prop :=
  ∃ started group before, (c.begin start files).run.run w = (.ok (),started) ∧
    c.Comes files.length (c.pendingGroups start files)
      (files.length - (files.filter fun f => !start.isCompleted f.1).length) {} started group before ∧
    c.FailsApart group before

/-- The run gives a result for each of the files that were to be converted; once it is cancelled,
for the first of them. -/
def Settles (c : Converter) (id : Text) (start : Option Progress) (files : List Source) (w : World) :
    Prop :=
  ∃ result later, (c.runProject id start files).run.run w = (.ok result,later) ∧
    Settled {} (pendingSources (c.startOf id start files) (normalized files)) result

/-- The run ends because of a path, a file, a checkpoint or a parser. -/
def Hindered (c : Converter) (id : Text) (start : Option Progress) (files : List Source) (w : World) :
    Prop :=
  ∃ e later, (c.runProject id start files).run.run w = (.error e,later) ∧ e.Hindrance

theorem runFrom_failed_iff (start : Progress) (files : List Source) (w : World) :
    (∃ t later, (c.runFrom start files).run.run w = (.error (.talk t),later)) ↔
      c.FailsFrom start files w := by
  obtain ⟨started,begun⟩ : ∃ started, (c.begin start files).run.run w = (.ok (),started) := ⟨_,rfl⟩
  rw [runFrom_eq,run_bind,begun]
  dsimp only
  rw [run_bind]
  have groups := convertGroups_failed_iff sends files.length (c.pendingGroups start files)
    (files.length - (files.filter fun f => !start.isCompleted f.1).length) {} started
  constructor
  · rintro ⟨t,later,failed⟩
    cases converted : (c.convertGroups files.length (c.pendingGroups start files)
        (files.length - (files.filter fun f => !start.isCompleted f.1).length) {}).run.run started with
    | mk r after =>
      rw [converted] at failed groups
      cases r with
      | ok r => exact ((obeys_conclude sends _ _).error failed).elim
      | error e =>
        cases failed
        obtain ⟨group,before,comes,fails⟩ := groups.1 ⟨t,_,rfl⟩
        exact ⟨started,group,before,begun,comes,fails⟩
  · rintro ⟨other,group,before,same,comes,fails⟩
    rw [begun] at same
    cases same
    obtain ⟨t,later,failed⟩ := groups.2 ⟨group,before,comes,fails⟩
    exact ⟨t,later,by rw [failed]⟩

theorem obeys_runFrom (start : Progress) (files : List Source)
    (normal : ∀ f ∈ files, (Path.ofText f.1).toText = f.1) :
    Obeys (c.runFrom start files) (Settled {} (pendingSources start files))
      fun e => e.Hindrance ∨ e.Failed := by
  have groups := obeys_convertGroups sends files.length (c.pendingGroups start files)
    (fun f member => normal f (mem_of_mem_pendingGroups member))
    (files.length - (files.filter fun f => !start.isCompleted f.1).length) {}
  rw [flatten_pendingGroups] at groups
  rw [runFrom_eq]
  have begun : Obeys (c.begin start files) (fun _ => True)
    (fun e : RunError => e.Hindrance ∨ e.Failed) := fun _ => trivial
  refine begun.bind fun _ _ => ?_
  refine groups.bind fun r settled => ?_
  refine (obeys_conclude sends _ r).mono (fun result same => ?_) fun _ => .inl
  unfold Settled
  rw [same.1,same.2]
  exact settled

end

/-- Answers two files that are sent together, and fails when it is asked about an answer. -/
def quotaService : Service where
  answer := fun _ request =>
    if Text.occurs "fails to parse" (Script.lastContent request) then { outcome := .failed "quota" }
    else { outcome := .reply (.text "<code>@@FILE a.src@@\n\x7d\n@@FILE b.src@@\ny\n</code>") }
  reachable := .reply (.text "ready")

theorem sendsTexts_quotaService : quotaService.SendsTexts := by
  intro past request v
  unfold quotaService
  dsimp only
  split <;> simp

/-- A converter that sends small files together and tries no file again. -/
def merging (service : Service) : Converter where
  settings := {
    language := { target := "plain", inputExtension := ".src", outputExtension := ".out", prompt := [] }
    run := { mergeSmall := true, maxRetries := 0 } }
  service := service
  target := .blocks "plain" ".out" .braces
  store := ⟨.ofText "state"⟩
  now := 0

/-- What the service said when it failed. -/
def complaint : Except RunError RunResult × World → Text
  | (.error (.talk (.service why)),_) => why
  | _ => []

end Converter

end Recast
