import Recast.Proofs.Rename.Balance
import Recast.Proofs.Run.Overwrite

/-! What a run says of its files. The issues that it reports for a file are those of the text that the
file has in the end, although they are found before the renaming goes through it. -/
namespace Recast
open Steps

namespace Converter

section
variable {c : Converter} {Holds : Converted → Prop}
  (finished : ∀ source output content code failed history,
    Obeys (c.finish source output content code failed history) Holds fun _ => True)
  (gaveUp : ∀ source output why, Holds (serviceFailed source output why))
include finished gaveUp

theorem obeys_convertFile_of_finish (path content : Text) :
    Obeys (c.convertFile path content []) Holds fun _ => True := by
  unfold convertFile
  dsimp only
  split
  · exact .throw trivial
  · rename_i output _
    have once : Obeys (c.convertOnce (Path.ofText path).toText output content []) Holds fun _ => True :=
      (Obeys.any _).bind fun _ _ => (Obeys.any _).bind fun _ _ => finished _ _ _ _ _ _
    exact c.obeys_retry (once.mono (fun _ h => h) fun _ h => .inl h) (gaveUp _ _) _ _

theorem obeys_convertEach_of_finish (files : List Source) :
    Obeys (c.convertEach files) (fun found => ∀ f ∈ found, Holds f) fun _ => True := by
  induction files with
  | nil => exact .pure (by simp)
  | cons f rest ih =>
    refine (obeys_convertFile_of_finish finished gaveUp _ _).bind fun _ first => ih.bind fun _ others => ?_
    exact .pure (List.forall_mem_cons.2 ⟨first,others⟩)

omit gaveUp in
theorem obeys_finishEach_of_finish (history : History) (parts : List (Source × Text)) :
    Obeys (c.finishEach history parts) (fun found => ∀ f ∈ found, Holds f) fun _ => True := by
  induction parts with
  | nil => exact .pure (by simp)
  | cons f rest ih =>
    unfold finishEach
    split
    · exact .throw trivial
    · refine (finished _ _ _ _ _ _).bind fun _ first => ih.bind fun _ others => ?_
      exact .pure (List.forall_mem_cons.2 ⟨first,others⟩)

/-- What holds of a file whenever it is finished or given up holds of the files of a group. -/
theorem obeys_groupWork_of_finish (files : List Source) :
    Obeys (c.groupWork files) (fun found => ∀ f ∈ found, Holds f) fun _ => True := by
  have each := obeys_convertEach_of_finish finished gaveUp files
  unfold groupWork convertGroup
  refine (Obeys.any _).bind fun _ _ => (Obeys.any _).bind fun _ _ => ?_
  split
  · exact each
  · refine (Obeys.any _).bind fun _ _ => ?_
    split
    · exact each
    · exact obeys_finishEach_of_finish finished _ _

end

/-- A file with an output has the issues of its text, and it is clean if there are none and all of it
was converted. -/
def Judged (issues : Text → List Issue) (f : Converted) : Prop :=
  f.outcome ≠ .failed → f.issues = issues f.content ∧
    (f.outcome = .clean ↔ f.issues = [] ∧ f.failedChunks = [])

variable {c : Converter}

theorem obeys_repairRounds_issues (source : Text) (history : History) (left done : Nat) (code : Text) :
    Obeys (c.repairRounds source history left done code (c.target.issues code))
      (fun r => r.2.1 = c.target.issues r.1) fun _ => True := by
  induction left generalizing done code with
  | zero =>
    unfold repairRounds
    split
    · rename_i none_
      exact .pure (List.isEmpty_iff.1 none_).symm
    · exact .pure rfl
  | succ left ih =>
    unfold repairRounds
    split
    · rename_i none_
      exact .pure (List.isEmpty_iff.1 none_).symm
    · refine (Obeys.any _).bind fun _ _ => (Obeys.any _).bind fun wanted _ => ?_
      split
      · exact (Obeys.any _).bind fun _ _ => (Obeys.any _).bind fun _ _ => ih _ _
      · exact .pure rfl

theorem judged_finish (source output content code : Text) (failed : List Int) (history : History) :
    Obeys (c.finish source output content code failed history) (Judged c.target.issues) fun _ => True := by
  unfold finish
  split
  · exact .pure fun some_ => absurd rfl some_
  · refine (c.obeys_repairRounds_issues _ _ _ _ _).bind fun r issues => ?_
    refine (Obeys.any _).bind fun _ _ => .pure fun _ => ⟨issues,?_⟩
    dsimp only
    rw [← List.isEmpty_iff,← List.isEmpty_iff,← Bool.and_eq_true]
    split
    · rename_i clean
      exact iff_of_true rfl clean
    · rename_i flagged
      exact iff_of_false (by simp) flagged

theorem judged_groupWork (files : List Source) :
    Obeys (c.groupWork files) (fun found => ∀ f ∈ found, Judged c.target.issues f) fun _ => True :=
  obeys_groupWork_of_finish judged_finish (fun _ _ _ some_ => absurd rfl some_) files

/-- The files that a run has recorded so far, with what its progress and the tree hold of them. -/
structure Shown (c : Converter) (start : Progress) (sources left : List Text) (p : Progress)
    (files : List Converted) (w : World) : Prop where
  held : w.progress = some p
  output : p.output = start.output
  named : Path.Plain (Store.fileName p)
  distinct : p.outcomes.names.Nodup
  single : p.outputs.names.Nodup
  once : (files.map Converted.source ++ left).Nodup
  waits : ∀ a ∈ left, a ∈ sources
  goes : ∀ f ∈ files, f.source ∈ sources ∧ c.outputOf? f.source = some f.output
  known : ∀ a, p.isCompleted a = true → ∃ f ∈ files, f.source = a ∧ f.outcome.completed = true
  kept : ∀ f ∈ files, f.outcome.completed = true → p.isCompleted f.source = true ∧
    p.outputs.get? f.source = some f.output ∧
      w.tree.file? (outputKey start f.output) = some (.text f.content)
  judged : ∀ f ∈ files, Judged c.target.issues f

namespace Shown
variable {start p q : Progress} {sources left : List Text} {files : List Converted} {f : Converted}
  {w v : World} {t : Tree}

theorem key (shown : c.Shown start sources left p files w) (o : Text) : outputKey p o = outputKey start o :=
  outputKey_congr shown.output o

variable (suited : c.Suited start sources)
include suited

theorem stands (shown : c.Shown start sources left p files w) : c.store.Stands p := by
  refine ⟨fun a held => ?_,shown.named,shown.distinct,shown.single⟩
  obtain ⟨f,member,rfl,completed⟩ := shown.known a held
  obtain ⟨inside,named⟩ := shown.goes f member
  obtain ⟨plain,outside⟩ := suited.plain _ inside _ named
  exact ⟨f.output,(shown.kept f member completed).2.1,plain,by rwa [shown.key]⟩

/-- What leaves the progress and the files outside of the store leaves what is shown. -/
theorem beside (shown : c.Shown start sources left p files w) (beside : Beside c.store.Inside w v) :
    c.Shown start sources left p files v := by
  refine { shown with held := beside.progress.trans shown.held, kept := fun f member completed => ?_ }
  obtain ⟨held,output,file⟩ := shown.kept f member completed
  obtain ⟨inside,named⟩ := shown.goes f member
  exact ⟨held,output,(beside.files _ (suited.plain _ inside _ named).2).trans file⟩

/-- A file that is recorded goes to a place where none of the others is. -/
theorem record (shown : c.Shown start sources (f.source :: left) p files w)
    (named : c.outputOf? f.source = some f.output) (judged : Judged c.target.issues f)
    (recorded : Recorded c f p q t w v) : c.Shown start sources left q (files ++ [f]) v := by
  have mine := shown.waits f.source (by simp)
  obtain ⟨plain,outside⟩ := suited.plain _ mine _ named
  have once : (files.map Converted.source ++ f.source :: left).Nodup := shown.once
  have other (g : Converted) (member : g ∈ files) : g.source ≠ f.source := fun same =>
    (List.nodup_append.1 once).2.2 _ (List.mem_map_of_mem member) _ (by simp) same
  obtain ⟨distinct,single⟩ := recorded.distinct shown.distinct shown.single
  refine ⟨recorded.held,recorded.output.trans shown.output,?_,distinct,single,?_,
    fun a member => shown.waits a (by simp [member]),?_,?_,?_,?_⟩
  · exact Store.fileName_congr recorded.id ▸ shown.named
  · simpa using once
  · intro g member
    rcases List.mem_append.1 member with before | last
    · exact shown.goes g before
    · rw [List.mem_singleton.1 last]
      exact ⟨mine,named⟩
  · intro a held
    by_cases same : a = f.source
    · rw [same,recorded.isCompleted_self] at held
      exact ⟨f,by simp,same.symm,held⟩
    · rw [recorded.isCompleted_other same] at held
      obtain ⟨g,member,from_,completed⟩ := shown.known a held
      exact ⟨g,by simp [member],from_,completed⟩
  · intro g member completed
    rcases List.mem_append.1 member with before | last
    · obtain ⟨held,output,file⟩ := shown.kept g before completed
      obtain ⟨inside,goes⟩ := shown.goes g before
      obtain ⟨straight,away⟩ := suited.plain _ inside _ goes
      refine ⟨by rw [recorded.isCompleted_other (other g before),held],?_,?_⟩
      · rw [recorded.outputs,if_neg fun same => other g before same.2,output]
      · rw [recorded.files _ away,recorded.placed,if_neg,file]
        rintro ⟨_,same⟩
        rw [shown.key] at same
        have equal := outputKey_inj straight plain same
        exact other g before (suited.apart _ inside _ mine _ goes (equal ▸ named))
    · rw [List.mem_singleton.1 last] at completed ⊢
      refine ⟨by rw [recorded.isCompleted_self,completed],by rw [recorded.outputs,if_pos ⟨completed,rfl⟩],?_⟩
      rw [recorded.files _ outside,recorded.placed,if_pos ⟨completed,(shown.key _).symm⟩]
  · intro g member
    rcases List.mem_append.1 member with before | last
    · exact shown.judged g before
    · rw [List.mem_singleton.1 last]
      exact judged

theorem recordEach {found : List Converted} {first : List Text} (covers : c.Covers first found)
    (judged : ∀ f ∈ found, Judged c.target.issues f) {total done : Nat} {result : RunResult}
    (shown : c.Shown start sources (first ++ left) p result.files w) {r : Nat × RunResult}
    (ran : (c.recordEach total found done result).run.run w = (.ok r,v)) :
    ∃ q, c.Shown start sources left q r.2.files v := by
  induction found generalizing first p w done result with
  | nil =>
    obtain ⟨none_,_⟩ := covers
    cases none_
    cases ran
    exact ⟨p,shown⟩
  | cons f rest ih =>
    obtain ⟨same,named⟩ := covers
    rw [List.map_cons] at same
    subst same
    obtain ⟨_,between,recorded_,ran⟩ := ok_of_run_bind ran
    obtain ⟨q,t,recorded⟩ := run_recorded shown.held shown.named recorded_
    have later := shown.record suited (named f (by simp)) (judged f (by simp)) recorded
    rw [← result.files_add f] at later
    exact ih ⟨rfl,fun g member => named g (by simp [member])⟩
      (fun g member => judged g (by simp [member])) later ran

theorem convertGroups {groups : List (List Source)}
    (normal : ∀ f ∈ groups.flatten, (Path.ofText f.1).toText = f.1) {total done : Nat} {result : RunResult}
    (shown : c.Shown start sources (groups.flatten.map Prod.fst) p result.files w) {r : Nat × RunResult}
    (ran : (c.convertGroups total groups done result).run.run w = (.ok r,v)) (whole : r.2.cancelled = false) :
    ∃ q, c.Shown start sources [] q r.2.files v := by
  induction groups generalizing p w done result with
  | nil =>
    cases ran
    exact ⟨p,shown⟩
  | cons first rest ih =>
    have worked := c.obeys_groupWork first fun f member => normal f (by simp [member])
    have judged := judged_groupWork (c := c) first
    rcases convertGroups_cons ran with ⟨between,_,ran⟩ | ⟨found,between,next,after,same,recorded,ran⟩
    · cases ran
      cases whole
    · have beside := leaves_groupWork (c := c) first w
      rw [same] at beside
      have there := shown.beside suited beside
      rw [List.flatten_cons,List.map_append] at there
      obtain ⟨q,later⟩ := recordEach suited (worked.ok same) (judged.ok same) there recorded
      exact ih (fun f member => normal f (by simp [member])) later ran

omit suited in
theorem flat_of_outputOf? {a o : Text} (goes : c.outputOf? a = some o) :
    '/' ∉ c.settings.language.outputExtension := by
  intro inside
  unfold outputOf? Path.withExtension? at goes
  rw [if_pos (by simp [inside])] at goes
  cases goes

omit suited in
/-- What is read of a file before it is moved is its text, but for the ends of its lines. -/
theorem plainFeeds_read (shown : c.Shown start sources left p files w) {contents : List (Text × Text)}
    (read : completedContents p w.tree p.completedPaths = .ok contents) {g : Text × Text}
    (member : g ∈ contents) (inside : f ∈ files) (completed : f.outcome.completed = true)
    (same : f.source = g.1) : g.2 = Text.plainFeeds f.content := by
  obtain ⟨_,output,file⟩ := shown.kept f inside completed
  obtain ⟨o,output_,text⟩ := of_mem_completedContents read member
  rw [same] at output
  obtain rfl := Option.some.inj (output.symm.trans output_)
  rw [← shown.key] at file
  rw [Tree.readText_of_file? file] at text
  exact (Except.ok.inj text).symm

omit suited in
/-- The store stays out of sight where it is kept when nothing else is said. -/
theorem not_inside_of_unhidden {o : Text} (plain : Path.Plain o)
    (unhidden : ∀ p ∈ (Path.ofText o).parts, p.head? ≠ some '.')
    (hidden : Key.ofPath c.store.folder = outputKey start ".reprogrammer") :
    ¬ c.store.Inside (outputKey start o) := by
  intro inside
  have hidden_ : Path.Plain ".reprogrammer" := by decide +kernel
  have parts : (Path.ofText ".reprogrammer").parts = [(".reprogrammer" : Text)] := by decide +kernel
  unfold Store.Inside at inside
  unfold outputKey at hidden inside
  rw [hidden,Key.ofPath_child plain,Key.ofPath_child hidden_,List.prefix_append_right_inj,parts] at inside
  exact unhidden _ (inside.subset List.mem_cons_self) rfl

/-- The outputs of the completed files are there. -/
theorem isFile_output (shown : c.Shown start sources left p files w) {a : Text}
    (member : a ∈ p.completedPaths) : ∃ o, p.outputs.get? a = some o ∧ o ≠ [] ∧
      w.tree.isFile (outputKey p o) = true := by
  obtain ⟨f,inside,rfl,completed⟩ := shown.known a (Progress.mem_completedPaths.1 member)
  obtain ⟨_,output,file⟩ := shown.kept f inside completed
  obtain ⟨from_,goes⟩ := shown.goes f inside
  refine ⟨f.output,output,(suited.plain _ from_ _ goes).1.ne_nil,?_⟩
  rw [shown.key]
  simp [Tree.isFile,file]

omit suited in
theorem mem_completedPaths (shown : c.Shown start sources left p files w) (member : f ∈ files)
    (some_ : f.outcome ≠ .failed) : f.outcome.completed = true ∧ f.source ∈ p.completedPaths := by
  have completed : f.outcome.completed = true := by simpa [FileOutcome.completed] using some_
  exact ⟨completed,Progress.mem_completedPaths.2 (shown.kept f member completed).1⟩

omit suited in
/-- An extension with which some file was completed has no slash. -/
theorem flat (shown : c.Shown start sources left p files w) {a : Text} (member : a ∈ p.completedPaths) :
    '/' ∉ c.settings.language.outputExtension := by
  obtain ⟨f,inside,_,_⟩ := shown.known a (Progress.mem_completedPaths.1 member)
  exact flat_of_outputOf? (shown.goes f inside).2

section
variable {name : Text} {symbols : Symbols}
  (target : c.target = .blocks name c.settings.language.outputExtension symbols) (bare : symbols.Bare)
  (dotted : ∀ p, c.settings.language.package = some p → ∀ d ∈ p, isDotted d = true)
include target dotted

omit suited in
/-- The places of types are out of the store where it is kept when nothing else is said. -/
theorem not_inside_outputOf (flat : '/' ∉ c.settings.language.outputExtension) {type : Text}
    (simple : Naming.Simple type) (source : Text)
    (hidden : Key.ofPath c.store.folder = outputKey start ".reprogrammer") :
    ¬ c.store.Inside (outputKey start (c.namer.outputOf source type)) := by
  have straight : ∀ p, c.settings.language.package = some p → '/' ∉ p := fun p given inside =>
    absurd (dotted p given '/' inside) (by decide)
  have unslashed := Target.slash_notMem_packageOf straight (.ofText source)
  have place : c.namer.outputOf source type = Target.typeFile c.settings.language.outputExtension
      (Target.packageOf (.ofText source) c.settings.language.package) type := by
    unfold Namer.outputOf Namer.spaceOf namer
    rw [target]
    rfl
  rw [place]
  exact not_inside_of_unhidden (Target.plain_typeFile flat unslashed simple)
    (Target.unhidden_typeFile flat unslashed simple) hidden

include bare in
/-- The files of a result are where it says, with the text and the issues that it gives. -/
theorem layOut {result later : RunResult} (shown : c.Shown start sources [] p result.files w)
    (ran : (c.layOut p result).run.run w = (.ok (q,later),v)) :
    Path.Plain (Store.fileName q) ∧ ∀ f ∈ later.files, f.outcome ≠ .failed →
      (Key.ofPath c.store.folder = outputKey start ".reprogrammer" →
        ¬ c.store.Inside (outputKey start f.output)) ∧
        v.tree.file? (outputKey start f.output) = some (.text f.content) ∧
          f.issues = symbols.issues f.content ∧ (f.outcome = .clean ↔ f.issues = [] ∧ f.failedChunks = []) := by
  have there (contents : List (Text × Text))
      (read : completedContents p w.tree p.completedPaths = .ok contents) :
      contents.map Prod.fst = p.completedPaths :=
    map_fst_completedContents read fun a member => shown.isFile_output suited member
  rcases run_layOut ran with ⟨read,same,rfl,_⟩ |
    ⟨contents,index,line,report,after,filled,read,told,renamed,moved,_,tree⟩
  · refine ⟨same ▸ shown.named,fun f member some_ => ?_⟩
    have inside := (shown.mem_completedPaths member some_).2
    rw [← there [] read] at inside
    cases inside
  · have all := there contents read
    have flat : '/' ∉ c.settings.language.outputExtension := by
      obtain ⟨g,rest,shape⟩ := List.exists_cons_of_ne_nil filled
      have member : g.1 ∈ p.completedPaths := by
        rw [← all,shape]
        simp
      exact shown.flat member
    have spreads : c.target.Spreads c.settings.language.package Naming.Simple := by
      rw [target]
      exact Target.spreads_blocks symbols flat fun p given inside =>
        absurd (dotted p given '/' inside) (by decide)
    have rehoused := rehoused spreads (shown.stands suited) read told renamed moved
    have worded : index.Worded := by
      unfold namer at told
      rw [target] at told
      exact (Namer.obeys_index_worded dotted contents).ok told
    have distinct : (result.files.map Converted.source).Nodup := by simpa using shown.once
    refine ⟨Store.fileName_congr rehoused.moved.id ▸ shown.named,fun f_ member some_ => ?_⟩
    rw [retold_moveAll rehoused.distinct distinct moved] at member
    obtain ⟨f,inside,rfl⟩ := List.mem_map.1 member
    rw [outcome_retold] at some_
    obtain ⟨completed,placed⟩ := shown.mem_completedPaths inside some_
    have indexed : f.source ∈ report.files.map Prod.fst := by
      rw [rehoused.paths.mem_iff,all]
      exact placed
    obtain ⟨e,type,found,simple,output⟩ := rehoused.entry _ indexed
    obtain ⟨g,moved_,path,shape⟩ := retold_of_mem indexed found
    obtain ⟨h,old,path_,issues⟩ := worded.issues_apply bare (target ▸ renamed) g moved_
    have file := rehoused.moved.files g moved_ e (path ▸ found)
    -- Reading a file back may change the ends of its lines, and no issue depends on these.
    have before : symbols.issues h.2 = symbols.issues f.content := by
      rw [shown.plainFeeds_read read old inside completed (path_.trans path).symm]
      exact Symbols.issues_congr (by rw [Text.bareLines_plainFeeds])
    obtain ⟨reported,clean⟩ := shown.judged f inside some_
    rw [target] at reported
    rw [shape]
    refine ⟨fun hidden => ?_,?_,?_,clean⟩
    · change ¬ c.store.Inside (outputKey start e.output)
      rw [output]
      exact not_inside_outputOf target dotted flat simple e.source hidden
    · rw [tree,← shown.key]
      exact file
    · exact reported.trans (before.symm.trans issues.symm)

end

end Shown

theorem shown_begin {c : Converter} {id : Text} {files : List Source}
    (suited : c.Suited (c.startOf id none files) ((normalized files).map Prod.fst))
    (named : Path.Plain (id ++ ".json")) {w v : World} {u : Unit}
    (ran : (c.begin (c.startOf id none files) (normalized files)).run.run w = (.ok u,v)) :
    c.Shown (c.startOf id none files) ((normalized files).map Prod.fst)
      ((c.pendingGroups (c.startOf id none files) (normalized files)).flatten.map Prod.fst)
      { c.startOf id none files with total := max (c.startOf id none files).total (normalized files).length }
      [] v := by
  have listed : ((c.pendingGroups (c.startOf id none files) (normalized files)).flatten.map Prod.fst).Sublist
      ((normalized files).map Prod.fst) := by
    rw [flatten_pendingGroups]
    exact sublist_pendingSources _ _
  cases ran
  have none_ (f : Converted) : f ∉ ([] : List Converted) := List.not_mem_nil
  refine ⟨rfl,rfl,named,.nil,.nil,suited.distinct.sublist listed,fun a member => listed.subset member,
    fun f member => absurd member (none_ f),fun a held => ?_,fun f member => absurd member (none_ f),
    fun f member => absurd member (none_ f)⟩
  cases held

namespace Verdict

/-- Answers with a type for one text, and with a lonely brace for all others. -/
def service : Service where
  answer := fun _ request =>
    if Text.occurs "one" (Script.lastContent request) then
      { outcome := .reply (.text "<code>class A\n</code>") }
    else { outcome := .reply (.text "<code>\x7d\n</code>") }
  reachable := .reply (.text "ready")

def settings : Settings where
  language := { target := "plain", inputExtension := ".src", outputExtension := ".out", prompt := [] }
  run := { maxRepairRounds := 0 }

def converter : Converter where
  settings := settings
  service := service
  target := .blocks "plain" ".out" .braces
  store := ⟨settings.project.checkpoints⟩
  now := 0

theorem bare_braces : Symbols.Bare .braces :=
  ⟨⟨'\x7b',rfl,by decide⟩,'\x7d',rfl,by decide⟩

/-- The result of a run that comes to its end, and what the run leaves. -/
def ended (files : List Source) : Option (RunResult × World) :=
  match (converter.runProject "s" none files).run.run {} with
  | (.ok result,v) => some (result,v)
  | (.error _,_) => none

theorem ran_of_ended {files : List Source} {result : RunResult} {v : World}
    (ended_ : ended files = some (result,v)) :
    (converter.runProject "s" none files).run.run {} = (.ok result,v) := by
  unfold ended at ended_
  split at ended_
  · rename_i same
    cases ended_
    exact same
  · cases ended_

/-- A file with issues, in a folder of its own. -/
def beside : List Source := [("a.src","one\n"),("x/b.src","\x7d\n")]

/-- The second path leads out of its folder again. -/
def astray : List Source := [("a.src","one\n"),("x/../A.src","\x7d\n")]

theorem suited_beside : converter.Suited (converter.startOf "s" none beside) ((normalized beside).map Prod.fst) := by
  refine .of_nodup (by decide +kernel) (by decide +kernel) fun o member => ?_
  revert o
  decide +kernel

end Verdict

end Converter
end Recast
