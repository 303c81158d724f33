import Recast.Proofs.Run.Plan
import Recast.Proofs.Run.Together

/-! A run that is cancelled and resumed, as often as it takes, next to one that is not. What is left to
do falls into the groups that the other run still has before it, so both come to the same files and
to the same record. -/
namespace Recast
open Steps

namespace Converter
variable {c : Converter} {x y : Circumstance} {f : Request → Text} {start other p q : Progress}
  {finished : List Text} {w u v v_ : World} {total total_ : Nat} {r r_ : Nat × RunResult}

theorem ne_nil_of_outputOf? {a o : Text} (goes : c.outputOf? a = some o) : o ≠ [] := by
  unfold outputOf? Path.withExtension? at goes
  split at goes
  · cases goes
  · rename_i fine
    cases goes
    obtain ⟨front,ends⟩ := Path.toText_last (Path.ofText a).root (Path.ofText a).parts.dropLast
    have named : (Path.ofText a).name ≠ [] := fun none_ => fine (by simp [none_])
    have stem : (Path.splitName (Path.ofText a).name).1 ≠ [] := by
      unfold Path.splitName
      split
      · rename_i before behind _
        split
        · exact named
        · rename_i filled
          exact fun none_ : before = [] => filled (by simp [none_])
      · exact named
    rw [ends]
    simp [stem]

/-- A run that comes to its last steps fails only where a file is in the way. -/
theorem run_closing {done : Nat} {result : RunResult} {answer : Except RunError RunResult}
    (held : w.progress = some p) (ran : (c.closing total done result).run.run w = (answer,v))
    (fine : ∀ e, answer = .error e → ¬ e.OfFiles) :
    answer = .ok result ∧ v.progress = some { p with updated := c.now } ∧ Deed.latest v.deeds = some p ∧
      (∀ k, ¬ c.store.Checkpoint (Store.fileName p) k → v.tree.file? k = w.tree.file? k) ∧
      ∀ k, w.tree.isFolder k = true → v.tree.isFolder k = true := by
  unfold closing at ran
  rw [run_bind] at ran
  cases saved : c.saveProgress.run.run w with
  | mk done_ between =>
    rw [saved] at ran
    cases done_ with
    | error e =>
      cases ran
      exact absurd (c.obeys_saveProgress.error saved) (fine e rfl)
    | ok one =>
      obtain ⟨now,deeds,files,folders⟩ := run_saveProgress held saved
      cases ran
      refine ⟨rfl,now,?_,files,folders⟩
      change Deed.latest between.deeds = some p
      rw [deeds]
      rfl

/-- What is read from a checkpoint stands where the run stood that saved it. -/
theorem Together.reload (together : c.Together start other finished p q w u) {s : Progress}
    (alike : p.Alike s) (held : v.progress = some s)
    (files : ∀ k, ¬ c.Own start.id other.id k → v.tree.file? k = w.tree.file? k)
    (folders : ∀ k, w.tree.isFolder k = true → v.tree.isFolder k = true) :
    c.Together start other finished s q v u := by
  have abreast := together.abreast.later files folders (fun _ _ => rfl) fun _ h => h
  have outputs := alike.get?_outputs together.abreast.single
  have key := outputKey_congr alike.output
  refine ⟨held,together.right,alike.id.trans together.id,together.others,alike.output.trans together.output,
    alike.total.trans together.total,⟨alike.toLike.symm.trans abreast.like,?_,?_,abreast.files,?_⟩,?_,?_⟩
  · exact (alike.outcomes.map Prod.fst).nodup_iff.2 abreast.distinct
  · exact (alike.outputs.map Prod.fst).nodup_iff.2 abreast.single
  · intro a o there
    rw [outputs] at there
    rw [key]
    exact abreast.rooted a o there
  · intro a o there
    rw [outputs] at there
    rw [key]
    exact together.present.later files a o there
  · intro a
    rw [alike.isCompleted together.abreast.distinct,together.completed]

section
variable (left : x.service.Answers f) (right : y.service.Answers f)
include left right

/-- Where both have done all their work, both end with the same files and with records that are
alike. -/
theorem Together.conclude (together : c.Together start other finished p q w u) (whole : r.2.cancelled = false)
    {answer : Except RunError RunResult} (ran : ((c.under x).conclude total r).run.run w = (answer,v))
    (fine : ∀ e, answer = .error e → ¬ e.OfFiles) (whole_ : r_.2.cancelled = false) {result_ : RunResult}
    (ran_ : ((c.under y).conclude total_ r_).run.run u = (.ok result_,v_)) :
    ∃ result p_ q_, answer = .ok result ∧ result.cancelled = false ∧ v.progress = some p_ ∧
      v_.progress = some q_ ∧ q_.Like p_ ∧
        ∀ k, ¬ c.Own start.id other.id k → v.tree.file? k = v_.tree.file? k := by
  rw [conclude_whole together.left whole,run_bind] at ran
  rw [conclude_whole together.right whole_] at ran_
  obtain ⟨⟨q1,last_⟩,laid_,second,ran_⟩ := ok_of_run_bind ran_
  obtain ⟨_,set_,same,ran_⟩ := ok_of_run_bind ran_
  cases same
  cases first : ((c.under x).layOut p r.2).run.run w with
  | mk answer_ laid =>
    rw [first] at ran
    obtain ⟨p1,last,same,still,abreast,id,id_⟩ := abreast_layOut left right together.abreast together.present
      first (fun e wrong => by subst wrong; cases ran; exact fine e rfl) second
    subst same
    obtain ⟨answered,now,_,files,_⟩ := run_closing (w := { laid with progress := some p1 }) rfl ran fine
    obtain ⟨_,now_,_,files_,_⟩ := run_closing (w := { laid_ with progress := some q1 }) rfl ran_
      fun e none_ => by cases none_
    refine ⟨last,_,_,answered,still.trans whole,now,now_,abreast.like.symm.dated _ _,fun k off => ?_⟩
    have mine : ¬ c.store.Checkpoint (Store.fileName p1) k := fun held =>
      off (.inl (id.trans together.id ▸ held))
    have theirs : ¬ c.store.Checkpoint (Store.fileName q1) k := fun held =>
      off (.inr (.inl (id_.trans together.others ▸ held)))
    calc v.tree.file? k = laid.tree.file? k := files k mine
      _ = laid_.tree.file? k := (abreast.files k off).symm
      _ = v_.tree.file? k := (files_ k theirs).symm

end

/-- A session that would go on with a progress and with the files of a tree: its completed files are
those of the first groups, and the other run has the rest of the groups ahead of it. -/
def Halfway (c : Converter) (y : Circumstance) (start other : Progress) (files : List Source) (last : World)
    (s : Progress) (t : Tree) : Prop :=
  ∃ before ahead q mid, before ++ ahead = Group.plan c.settings.language c.settings.run files ∧
    (c.under y).Finishes ahead mid last ∧
    c.Together start other (before.flatten.map Prod.fst) s q { tree := t, progress := some s } mid

/-- A run that knows how many files there are does not count them anew. -/
theorem total_eq {s : Progress} {files : List Source} (counted : s.total = files.length) :
    ({ s with total := max s.total files.length } : Progress) = s := by
  rw [counted,Int.max_self,← counted]

/-- The files that are left fall into the groups that are left. -/
theorem pendingGroups_eq {s : Progress} {files : List Source} {before ahead : List (List Source)}
    (distinct : (files.map Prod.fst).Nodup)
    (cut : before ++ ahead = Group.plan c.settings.language c.settings.run files)
    (completed : ∀ a, s.isCompleted a = true ↔ a ∈ before.flatten.map Prod.fst) :
    c.pendingGroups s files = ahead := by
  have whole : before.flatten ++ ahead.flatten = files := by
    rw [← List.flatten_append,cut,flatten_plan]
  rw [← whole,List.map_append] at distinct
  have apart := (List.nodup_append.1 distinct).2.2
  have left : files.filter (fun f => !s.isCompleted f.1) = ahead.flatten := by
    rw [← whole,List.filter_append]
    have none_ : before.flatten.filter (fun f => !s.isCompleted f.1) = [] := by
      refine List.filter_eq_nil_iff.2 fun f member => ?_
      simp [(completed f.1).2 (List.mem_map_of_mem member)]
    have all : ahead.flatten.filter (fun f => !s.isCompleted f.1) = ahead.flatten := by
      refine List.filter_eq_self.2 fun f member => ?_
      -- A completed file stands in one of the first groups, and no file stands in two.
      have undone : ¬ s.isCompleted f.1 = true := fun done =>
        apart _ ((completed f.1).1 done) _ (List.mem_map_of_mem member) rfl
      simpa using undone
    rw [none_,all,List.nil_append]
  rw [pendingGroups,left]
  exact Group.plan_flatten_of_suffix ⟨before,cut⟩

section
variable (left : x.service.Answers f) (right : y.service.Answers f) {files : List Source}
  (distinct : (files.map Prod.fst).Nodup) (normal : ∀ g ∈ files, (Path.ofText g.1).toText = g.1)
  (placed : ∀ g ∈ files, ∀ o, c.outputOf? g.1 = some o → ¬ c.Own start.id other.id (outputKey start o))
  (counted : start.total = files.length) {last : World} (whole_ : r_.2.cancelled = false)
  {result_ : RunResult} (concluded : ((c.under y).conclude total_ r_).run.run last = (.ok result_,v_))
include left right distinct normal placed counted whole_ concluded

/-- A run that goes on from there is cancelled somewhere further, or it comes to the end of the other
run. -/
theorem Halfway.run {s : Progress} (halfway : c.Halfway y start other files last s w.tree)
    {answer : Except RunError RunResult} (ran : ((c.under x).runFrom s files).run.run w = (answer,v))
    (fine : ∀ e, answer = .error e → ¬ e.OfFiles) : ∃ result, answer = .ok result ∧
      (result.cancelled = true ∧ (∃ saved, Deed.latest v.deeds = some saved ∧
          ∀ p, saved.Alike p → c.Halfway y start other files last p v.tree) ∨
        result.cancelled = false ∧ ∃ p q, v.progress = some p ∧ v_.progress = some q ∧ q.Like p ∧
          ∀ k, ¬ c.Own start.id other.id k → v.tree.file? k = v_.tree.file? k) := by
  obtain ⟨before,ahead,q,mid,cut,finishes,together⟩ := halfway
  have pending : (c.under x).pendingGroups s files = ahead :=
    pendingGroups_eq distinct cut together.completed
  have listed (g : Source) (member : g ∈ ahead.flatten) : g ∈ files := by
    rw [← flatten_plan c.settings.language c.settings.run files,← cut,List.flatten_append]
    exact List.mem_append_right _ member
  obtain ⟨w1,begun,now,tree⟩ := (c.under x).run_begin s files w
  rw [total_eq (together.total.trans counted)] at now
  have here : c.Together start other (before.flatten.map Prod.fst) s q w1 mid :=
    together.reload (.refl s) now (fun k _ => by rw [tree]) fun k there => by rw [tree]; exact there
  rw [runFrom_eq,run_bind,begun,pending] at ran
  dsimp only at ran
  rw [run_bind] at ran
  cases worked : ((c.under x).convertGroups files.length ahead
      (files.length - (files.filter fun f => !s.isCompleted f.1).length) {}).run.run w1 with
  | mk answer_ between =>
    rw [worked] at ran
    obtain ⟨more,same,before_,ahead_,p1,q1,mid_,cut_,finishes_,there,all⟩ := here.convertGroups left right
      (fun g member => normal g (listed g member))
      (fun g member o goes => ⟨ne_nil_of_outputOf? goes,placed g (listed g member) o goes⟩) finishes rfl worked
      (fun e wrong => by subst wrong; cases ran; exact fine e rfl)
    subst same
    dsimp only at ran
    cases cancelled : more.2.cancelled with
    | true =>
      rw [conclude_cancelled cancelled] at ran
      obtain ⟨answered,now_,saved,files_,folders⟩ := run_closing there.left ran fine
      refine ⟨_,answered,.inl ⟨cancelled,p1,saved,fun p alike => ?_⟩⟩
      refine ⟨before ++ before_,ahead_,q1,mid_,?_,finishes_,?_⟩
      · rw [List.append_assoc,← cut_,cut]
      · rw [List.flatten_append,List.map_append]
        refine there.reload alike rfl (fun k off => files_ k fun held => off (.inl ?_)) folders
        exact there.id ▸ held
    | false =>
      rw [all cancelled] at finishes_
      obtain ⟨_,_,_,_,ended,_⟩ := finishes_
      cases ended
      obtain ⟨result,p_,q_,answered,still,held,held_,like,same⟩ :=
        there.conclude left right cancelled ran fine whole_ concluded
      exact ⟨result,answered,.inr ⟨still,p_,q_,held,held_,like,same⟩⟩

end

theorem outcomes_conclude {result : RunResult} (ran : (c.conclude total r).run.run w = (.ok result,v)) :
    result.files.map Converted.outcome = r.2.files.map Converted.outcome := by
  cases cancelled : r.2.cancelled with
  | true =>
    rw [conclude_cancelled cancelled] at ran
    obtain ⟨_,_,_,ran⟩ := ok_of_run_bind ran
    cases ran
    rfl
  | false =>
    cases held : w.progress with
    | none =>
      unfold Converter.conclude at ran
      rw [cancelled,if_neg Bool.false_ne_true,run_bind,run_get] at ran
      dsimp only at ran
      rw [held] at ran
      obtain ⟨_,_,same,ran⟩ := ok_of_run_bind ran
      cases same
      obtain ⟨_,_,_,ran⟩ := ok_of_run_bind ran
      cases ran
      rfl
    | some p =>
      obtain ⟨_,_,_,_,laid,_⟩ := run_conclude held cancelled ran
      exact outcomes_layOut laid

/-- A project is begun, or it goes on from a checkpoint. -/
def goOn (c : Converter) (id : Text) (files : List Source) : Option Progress → Run RunResult
  | none => c.runProject id none files
  | some p => c.resume p (some files)

theorem run_goOn {id : Text} {files : List Source} {begins : Option Progress}
    (reachable : c.service.probe = .ok ()) (w : World) :
    (c.goOn id files begins).run.run w =
      (c.runFrom (c.startOf id begins files) (normalized files)).run.run w := by
  have shape : c.goOn id files begins =
      (do c.probe; c.runFrom (c.startOf id begins files) (normalized files)) := by
    cases begins with
    | none => rfl
    | some p => rfl
  rw [shape,run_bind]
  unfold probe
  rw [reachable]
  rfl

/-- A run that comes to its end has reached the service. -/
theorem reachable_of_goOn {id : Text} {files : List Source} {begins : Option Progress} {result : RunResult}
    (ran : (c.goOn id files begins).run.run w = (.ok result,v)) : c.service.probe = .ok () := by
  have shape : c.goOn id files begins =
      (do c.probe; c.runFrom (c.startOf id begins files) (normalized files)) := by
    cases begins with
    | none => rfl
    | some p => rfl
  rw [shape] at ran
  obtain ⟨_,_,reached,_⟩ := ok_of_run_bind ran
  unfold probe at reached
  cases found : c.service.probe with
  | error why =>
    rw [found] at reached
    cases reached
  | ok _ => rfl

/-- Runs of one session over some files that were all cancelled: what the last one saved, as it is read
again, and the files that it left. The first one begins in the given files. -/
inductive Interrupted (c : Converter) (f : Request → Text) (id : Text) (files : List Source) (t : Tree) :
    Option Progress → Tree → Prop
  | nil : Interrupted c f id files t none t
  | cons {begins : Option Progress} {x : Circumstance} {w v : World} {result : RunResult}
      {saved p : Progress} :
      Interrupted c f id files t begins w.tree → x.service.Answers f →
      ((c.under x).goOn id files begins).run.run w = (.ok result,v) → result.cancelled = true →
      Deed.latest v.deeds = some saved → saved.Alike p → Interrupted c f id files t (some p) v.tree

section
variable {id id_ : Text} {files : List Source} (distinct : ((normalized files).map Prod.fst).Nodup)
  (placed : ∀ g ∈ normalized files, ∀ o, c.outputOf? g.1 = some o →
    ¬ c.Own id id_ (outputKey (c.startOf id none files) o))
  (right : y.service.Answers f) {whole : RunResult}
  (ran_ : ((c.under y).runProject id_ none files).run.run u = (.ok whole,v_))
  (going : whole.cancelled = false) (completed : ∀ g ∈ whole.files, g.outcome ≠ .failed)

variable (id) in
include going completed ran_ in
/-- A run that is not cancelled, and in which no file fails, has all groups ahead of it. -/
theorem halfway_begin : ∃ last r_, r_.2.cancelled = false ∧
    ((c.under y).conclude (normalized files).length r_).run.run last = (.ok whole,v_) ∧
    ∀ x, c.Halfway y (c.startOf id none files) (c.startOf id_ none files) (normalized files) last
      ((c.under x).startOf id none files) u.tree := by
  change ((c.under y).goOn id_ files none).run.run u = _ at ran_
  rw [run_goOn (reachable_of_goOn ran_),runFrom_eq] at ran_
  obtain ⟨mid,begun,now,tree⟩ := (c.under y).run_begin ((c.under y).startOf id_ none files) (normalized files) u
  rw [total_eq (rfl : ((c.under y).startOf id_ none files).total = (normalized files).length)] at now
  rw [run_bind,begun] at ran_
  obtain ⟨r_,last,worked,ran_⟩ := ok_of_run_bind ran_
  have whole_ : r_.2.cancelled = false := Bool.eq_false_iff.2 fun cancelled =>
    Bool.false_ne_true (going.symm.trans (cancelled_conclude ran_ cancelled))
  have pending : (c.under y).pendingGroups ((c.under y).startOf id_ none files) (normalized files) =
      Group.plan c.settings.language c.settings.run (normalized files) :=
    congrArg (Group.plan c.settings.language c.settings.run) (List.filter_eq_self.2 fun _ _ => rfl)
  have finished (g : Converted) (member : g ∈ r_.2.files) : g.outcome.completed = true := by
    have listed : g.outcome ∈ whole.files.map Converted.outcome := by
      rw [outcomes_conclude ran_]
      exact List.mem_map_of_mem member
    obtain ⟨h,inside,same⟩ := List.mem_map.1 listed
    have some_ := completed h inside
    rw [same] at some_
    simpa [FileOutcome.completed] using some_
  rw [pending] at worked
  have finishes : (c.under y).Finishes _ mid last := ⟨_,_,_,r_,worked,whole_,finished⟩
  have together (x : Circumstance) : c.Together (c.startOf id none files) (c.startOf id_ none files) []
      ((c.under x).startOf id none files) ((c.under y).startOf id_ none files)
      { tree := u.tree, progress := some ((c.under x).startOf id none files) } mid := by
    refine ⟨rfl,now,rfl,rfl,rfl,rfl,⟨⟨rfl,rfl,.refl _,rfl,rfl,rfl,rfl,.refl _,rfl⟩,.nil,.nil,
      fun k _ => by rw [tree],fun a o held => ?_⟩,fun a o held => ?_,fun a => ⟨fun held => ?_,fun held => ?_⟩⟩
    · cases held
    · cases held
    · cases held
    · cases held
  exact ⟨last,r_,whole_,ran_,fun x => ⟨[],_,_,mid,rfl,finishes,together x⟩⟩

include distinct placed right in
/-- Each of the runs that were cancelled has kept to the groups of the other one. -/
theorem Interrupted.halfway {last : World} {r_ : Nat × RunResult} (whole_ : r_.2.cancelled = false)
    (concluded : ((c.under y).conclude (normalized files).length r_).run.run last = (.ok whole,v_))
    {t : Tree} (begun : ∀ x, c.Halfway y (c.startOf id none files) (c.startOf id_ none files)
      (normalized files) last ((c.under x).startOf id none files) t)
    {begins : Option Progress} {later : Tree} (interrupted : c.Interrupted f id files t begins later)
    (x : Circumstance) : c.Halfway y (c.startOf id none files) (c.startOf id_ none files) (normalized files)
      last ((c.under x).startOf id begins files) later := by
  induction interrupted generalizing x with
  | nil => exact begun x
  | @cons begins z w v result saved p earlier left ran cancelled kept alike ih =>
    rw [run_goOn (reachable_of_goOn ran)] at ran
    obtain ⟨_,same,⟨_,saved_,latest,further⟩ | ⟨going,_⟩⟩ :=
      (ih z).run left right distinct (fun g => normal_of_mem) placed rfl whole_ concluded ran
        fun e none_ => by cases none_
    · rw [kept] at latest
      cases latest
      exact further p alike
    · cases same
      exact absurd (cancelled.symm.trans going) Bool.noConfusion

end

/-- However often a session is cancelled and resumed, the run that is not cancelled any more leaves the
files that a run without a break leaves, and its record says the same. Only the places where the sessions
keep their checkpoints and transcripts are left aside, and at first no file may go to one of these. -/
theorem resumed_like (c : Converter) {f : Request → Text} {files : List Source}
    (distinct : ((normalized files).map Prod.fst).Nodup) {id id_ : Text}
    (placed : ∀ g ∈ normalized files, ∀ o, c.outputOf? g.1 = some o →
      ¬ c.Own id id_ (outputKey (c.startOf id none files) o))
    {x y : Circumstance} (left : x.service.Answers f) (right : y.service.Answers f)
    (reachable : x.service.probe = .ok ()) {u v_ : World} {whole : RunResult}
    (ran_ : ((c.under y).runProject id_ none files).run.run u = (.ok whole,v_))
    (going : whole.cancelled = false) (completed : ∀ g ∈ whole.files, g.outcome ≠ .failed)
    {begins : Option Progress} {w v : World} (interrupted : c.Interrupted f id files u.tree begins w.tree)
    {answer : Except RunError RunResult} (ran : ((c.under x).goOn id files begins).run.run w = (answer,v))
    (fine : ∀ e, answer = .error e → ¬ e.OfFiles) :
    ∃ result, answer = .ok result ∧ (result.cancelled = false →
      ∃ p q, v.progress = some p ∧ v_.progress = some q ∧ q.Like p ∧
        ∀ k, ¬ c.Own id id_ k → v.tree.file? k = v_.tree.file? k) := by
  obtain ⟨last,r_,whole_,concluded,begun⟩ := halfway_begin id ran_ going completed
  have halfway := interrupted.halfway distinct placed right whole_ concluded begun x
  rw [run_goOn reachable] at ran
  obtain ⟨result,answered,⟨cancelled,_⟩ | ⟨_,ended⟩⟩ := halfway.run left right distinct
    (fun g => normal_of_mem) placed rfl whole_ concluded ran fine
  · refine ⟨result,answered,fun going => ?_⟩
    exact absurd (cancelled.symm.trans going) Bool.noConfusion
  · exact ⟨result,answered,fun _ => ended⟩

namespace Resumption

/-- Answers with a type for one text, which may bring commands along, and with another for the rest. -/
def service (commands : List Command) : Service where
  answer := fun _ request =>
    if Text.occurs "one" (Script.lastContent request) then
      { commands := commands, outcome := .reply (.text "<code>class session_1000_0a1b2c3d\n</code>") }
    else { outcome := .reply (.text "<code>class B\n</code>") }
  reachable := .reply (.text "ready")

def reply (request : Request) : Text :=
  if Text.occurs "one" (Script.lastContent request) then "<code>class session_1000_0a1b2c3d\n</code>"
  else "<code>class B\n</code>"

theorem answers (commands : List Command) : (service commands).Answers reply := by
  intro past request
  unfold service reply
  dsimp only
  split
  · rfl
  · rfl

def circumstance (commands : List Command) : Circumstance where
  service := service commands
  now := 0

def settings (state : Option Path) : Settings where
  project := { stateFolder := state }
  language := { target := "plain", inputExtension := ".src", outputExtension := ".json", prompt := [] }

def converter (state : Option Path) : Converter where
  settings := settings state
  service := service []
  target := .blocks "plain" ".json" .braces
  store := ⟨(settings state).project.checkpoints⟩
  now := 0

def files : List Source := [("a.src","one\n"),("b.src","two\n")]

def session : Text := "session_1000_0a1b2c3d"

def otherSession : Text := "session_2000_4e5f6a7b"

/-- A run without a break. -/
def straight (state : Option Path) : Except RunError RunResult × World :=
  (((converter state).under (circumstance [])).runProject otherSession none files).run.run {}

/-- A run that is cancelled while the first file is converted. -/
def stopped (state : Option Path) : Except RunError RunResult × World :=
  (((converter state).under (circumstance [.cancel])).goOn session files none).run.run {}

def kept (state : Option Path) : Progress :=
  (Deed.latest (stopped state).2.deeds).getD ((converter state).newProgress session 2)

/-- The run that goes on from there. -/
def resumed (state : Option Path) : Except RunError RunResult × World :=
  (((converter state).under (circumstance [])).goOn session files (some (kept state))).run.run
    { tree := (stopped state).2.tree }

/-- One run is cancelled, the other two are not, and no file fails. -/
def ends (state : Option Path) : Bool :=
  (stopped state).1.toOption.any (fun r => r.cancelled) && (Deed.latest (stopped state).2.deeds).isSome &&
    (resumed state).1.toOption.any (fun r => !r.cancelled) &&
    (straight state).1.toOption.any fun r => !r.cancelled && r.files.all fun g => decide (g.outcome ≠ .failed)

theorem ok_of_any {α : Type} {answer : Except RunError α} {holds : α → Bool}
    (told : answer.toOption.any holds = true) : ∃ result, answer = .ok result ∧ holds result = true := by
  cases answer with
  | error e => cases told
  | ok result => exact ⟨result,rfl,told⟩

theorem of_ends {state : Option Path} (told : ends state = true) : ∃ last whole,
    (((converter state).under (circumstance [])).goOn session files (some (kept state))).run.run
        { tree := (stopped state).2.tree } = (.ok last,(resumed state).2) ∧ last.cancelled = false ∧
      (((converter state).under (circumstance [])).runProject otherSession none files).run.run {} =
        (.ok whole,(straight state).2) ∧ whole.cancelled = false ∧ (∀ g ∈ whole.files, g.outcome ≠ .failed) ∧
      (converter state).Interrupted reply session files .empty (some (kept state)) (stopped state).2.tree := by
  simp only [ends,Bool.and_eq_true] at told
  obtain ⟨⟨⟨first,saved⟩,second⟩,third⟩ := told
  obtain ⟨cut,ran,cancelled⟩ := ok_of_any first
  obtain ⟨last,ended,going⟩ := ok_of_any second
  obtain ⟨whole,through,fine⟩ := ok_of_any third
  obtain ⟨p,held⟩ := Option.isSome_iff_exists.1 saved
  have same : kept state = p := by
    unfold kept
    rw [held]
    rfl
  simp only [Bool.and_eq_true,Bool.not_eq_true',List.all_eq_true,decide_eq_true_eq] at going fine
  exact ⟨last,whole,Prod.ext ended rfl,going,Prod.ext through rfl,fine.1,fine.2,
    .cons (w := {}) .nil (answers [.cancel]) (Prod.ext ran rfl) cancelled held (same ▸ .refl p)⟩

theorem placed : ∀ g ∈ normalized files, ∀ o, (converter none).outputOf? g.1 = some o →
    ¬ (converter none).Own session otherSession (outputKey ((converter none).startOf session none files) o) := by
  have all : ∀ g ∈ normalized files, ((converter none).outputOf? g.1).all (fun o => decide
      (¬ (converter none).Own session otherSession
        (outputKey ((converter none).startOf session none files) o))) = true := by decide +kernel
  intro g member o goes
  have away := all g member
  rw [goes] at away
  simpa using away

/-- The first character of a file. -/
def firstChar (t : Tree) (k : Key) : Option Char :=
  match t.file? k with
  | some (.text s) => s.head?
  | _ => none

def output : Text := session ++ ".json"

/-- The last checkpoint stands where the output of the first file is without a break. -/
def hides (state : Option Path) : Bool :=
  ends state && (straight state).2.progress.any fun q =>
    q.outputs.get? "a.src" = some output &&
      firstChar (resumed state).2.tree (outputKey q output) = some '\x7b' &&
        firstChar (straight state).2.tree (outputKey q output) = some 'c'

end Resumption

theorem resumed_like_stopped : ∃ p q, (Resumption.resumed none).2.progress = some p ∧
    (Resumption.straight none).2.progress = some q ∧ q.Like p ∧
    ∀ k, ¬ (Resumption.converter none).Own Resumption.session Resumption.otherSession k →
      (Resumption.resumed none).2.tree.file? k = (Resumption.straight none).2.tree.file? k := by
  have told : Resumption.ends none = true := by decide +kernel
  obtain ⟨last,whole,ended,still,ran,going,fine,interrupted⟩ := Resumption.of_ends told
  have faultless (e : RunError) : (.ok last : Except RunError RunResult) = .error e → ¬ e.OfFiles := nofun
  obtain ⟨_,same,like⟩ := resumed_like (w := { tree := (Resumption.stopped none).2.tree })
    (Resumption.converter none) (by decide +kernel) Resumption.placed (Resumption.answers [])
    (Resumption.answers []) rfl ran going fine interrupted ended faultless
  cases same
  exact like still

/-- The outputs are not the same where a session keeps its checkpoints among them. -/
theorem resumed_like_among : ¬ ∀ (c : Converter) (f : Request → Text) (files : List Source) (id id_ : Text)
    (x y : Circumstance) (u v_ w v : World) (whole last : RunResult) (begins : Option Progress),
    c.store.folder = c.settings.project.checkpoints →
    Path.Plain (id ++ ".json") → Path.Plain (id_ ++ ".json") →
    ((normalized files).map Prod.fst).Nodup → ((normalized files).map fun g => c.outputOf? g.1).Nodup →
    x.service.Answers f → y.service.Answers f →
    ((c.under y).runProject id_ none files).run.run u = (.ok whole,v_) → whole.cancelled = false →
    (∀ g ∈ whole.files, g.outcome ≠ .failed) → c.Interrupted f id files u.tree begins w.tree →
    ((c.under x).goOn id files begins).run.run w = (.ok last,v) → last.cancelled = false →
    ∃ p q, v.progress = some p ∧ v_.progress = some q ∧ q.Like p ∧
      ∀ a o, q.outputs.get? a = some o → v.tree.file? (outputKey q o) = v_.tree.file? (outputKey q o) := by
  intro claim
  have told : Resumption.hides (some (.ofText "output")) = true := by decide +kernel
  generalize some (Path.ofText "output") = state at told
  obtain ⟨told,hidden⟩ := Bool.and_eq_true_iff.1 told
  obtain ⟨last,whole,ended,still,ran,going,fine,interrupted⟩ := Resumption.of_ends told
  obtain ⟨q,held,place⟩ := (Option.any_eq_true _ _).1 hidden
  simp only [Bool.and_eq_true,decide_eq_true_eq] at place
  obtain ⟨⟨output,left⟩,right⟩ := place
  have apart : ((normalized Resumption.files).map fun g => (Resumption.converter none).outputOf? g.1).Nodup := by
    decide +kernel
  obtain ⟨_,q_,_,held_,_,same⟩ := claim (Resumption.converter state) Resumption.reply Resumption.files
    Resumption.session Resumption.otherSession (Resumption.circumstance []) (Resumption.circumstance []) {} _
    { tree := (Resumption.stopped state).2.tree } _ whole last (some (Resumption.kept state)) rfl
    (by decide +kernel) (by decide +kernel) (by decide +kernel) apart (Resumption.answers [])
    (Resumption.answers []) ran going fine interrupted ended still
  obtain rfl := Option.some.inj (held.symm.trans held_)
  unfold Resumption.firstChar at left right
  rw [same _ _ output,right] at left
  cases left

end Converter
end Recast
