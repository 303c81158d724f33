import Recast.Proofs.Repair.Best
import Recast.Proofs.Run.Account
import Recast.Proofs.Run.Verdict

/-! Rounds of repair. Each one leaves no more issues than it found and is told with its number, and
the code of the last one is the one that a file comes out with. -/
namespace Recast
open Steps

namespace Service

/-- The service without its failures: where one would be told, an empty text is sent. -/
def steadied (service : Service) : Service where
  answer := fun past request => { service.answer past request with
    outcome := match (service.answer past request).outcome with
      | .reply r => .reply r
      | _ => .reply (.text []) }
  reachable := service.reachable

theorem replies_steadied (service : Service) : service.steadied.Replies := by
  intro past request
  unfold steadied
  dsimp only
  split
  · exact ⟨_,rfl⟩
  · exact ⟨_,rfl⟩

/-- Until a service fails, it and the one without failures are asked alike and answer alike. -/
theorem follows_steadied (service : Service) (request : Request) :
    Follows Eq Eq (fun e _ => e.Failed) (service.ask request) (service.steadied.ask request) := by
  rintro line _ rfl
  rw [run_ask,run_ask]
  unfold steadied answered
  dsimp only
  cases (service.answer line.calls request).outcome with
  | reply r => exact .inl ⟨rfl,rfl⟩
  | failed why => exact .inr ⟨_,rfl,_,rfl⟩
  | crashed why => exact .inr ⟨_,rfl,_,rfl⟩

end Service

/-- A repair that comes to its end has not made the code worse. -/
theorem Repairer.issues_repair {r : Repairer} {code result : Text} {history : Option History}
    {line : Line} (ran : (r.repair code (r.issues code) history line).1 = .ok result) :
    (r.issues result).length ≤ (r.issues code).length := by
  have loud (n : Nat) (found : Text) (line : Line) : ¬ (TalkError.incomplete n found).Failed := by
    rintro ⟨why,same⟩
    cases same
  let start : RepairState := { line := line, history := history, best := (code,r.issues code) }
  have follows := follows_passes r.session.service.follows_steadied r loud r.maxDepth 0 code
    (r.issues code) start start ⟨⟨rfl,rfl,rfl⟩,rfl⟩
  have ended : ((r.passes r.maxDepth 0 code (r.issues code)).run.run start).1 = .ok result := ran
  obtain ⟨best,t,ends,settled⟩ :=
    (r.on r.session.service.steadied).settled_repair r.session.service.replies_steadied code history line
  have ended_ : (((r.on r.session.service.steadied).passes r.maxDepth 0 code
      (r.issues code)).run.run start).1 = .ok best := congrArg Prod.fst ends
  -- No call failed, since the repair came to its end; so it goes like the one without failures.
  have same : best = result := by
    rcases follows with ⟨alike,_⟩ | ⟨e,broke,_⟩
    · exact Except.ok.inj (ended_.symm.trans (alike.symm.trans ended))
    · cases ended.symm.trans broke
  have fewest : r.count best ≤ r.count code :=
    List.le_of_mem_argmin (f := r.count) List.mem_cons_self settled.first
  rwa [same] at fewest

/-- What was told of rounds of repair. -/
def World.rounds (w : World) : List Event := w.events.filter fun e => e.kind = .repairRound

theorem World.rounds_publish (watches : List Watch) (e : Event) (w : World) :
    (w.publish watches e).rounds = w.rounds ++ [e].filter fun e => e.kind = .repairRound :=
  List.filter_append ..

section
variable {α β : Type}

/-- Steps that tell of no round, whatever comes of them. -/
def Aside (m : Run α) : Prop := Relates (fun w v : World => v.rounds = w.rounds) m

theorem Aside.bind {m : Run α} {f : α → Run β} (first : Aside m) (next : ∀ a, Aside (f a)) :
    Aside (m >>= f) :=
  Relates.bind (fun before after => after.trans before) first next

theorem Quiet.aside {m : Run α} (quiet : Quiet m) : Aside m := by
  intro w
  dsimp only [World.rounds]
  rw [quiet w]

theorem Aside.emit (watches : List Watch) {e : Event} (other : e.kind ≠ .repairRound) :
    Aside (Run.emit watches e) := by
  intro w
  have silent : [e].filter (fun e => e.kind = .repairRound) = [] := by simpa using other
  exact (w.rounds_publish watches e).trans (by rw [silent,List.append_nil])

theorem Aside.poll (watches : List Watch) : Aside (Run.poll watches) := by
  refine Run.relates_poll (fun _ => rfl) (fun before after => after.trans before) (fun e w kind => ?_)
    fun _ _ => rfl
  refine Aside.emit watches ?_ w
  rcases kind with paused | resumed
  · simp [paused]
  · simp [resumed]

end

namespace Converter
variable {c : Converter} {source : Text} {history : History} {left done : Nat} {code : Text}
  {w v : World}

/-- A round takes a code that has issues to one that has no more of them. -/
structure Round (c : Converter) (history : History) (old new : Text) : Prop where
  wanting : c.target.issues old ≠ []
  repaired : ∃ u v, (c.repairOnce old (c.target.issues old) history).run.run u = (.ok new,v)
  issues : (c.target.issues new).length ≤ (c.target.issues old).length

/-- Between two worlds a code went through rounds that led to some codes, each of them told with its
number and with the issues that it left. -/
structure Mended (c : Converter) (source : Text) (history : History) (left done : Nat) (code : Text)
    (codes : List Text) (w v : World) : Prop where
  rounds : (code :: codes).IsChain (c.Round history)
  bound : codes.length ≤ left
  told : v.rounds = w.rounds ++ codes.mapIdx fun i new =>
    c.roundEvent source (done + i + 1) (c.target.issues new).length

theorem Mended.none (same : v.rounds = w.rounds) : c.Mended source history left done code [] w v :=
  ⟨.singleton _,Nat.zero_le _,by simp [same]⟩

theorem Mended.round {u : World} {new : Text} {codes : List Text} (round : c.Round history code new)
    (told : u.rounds = w.rounds ++ [c.roundEvent source (done + 1) (c.target.issues new).length])
    (rest : c.Mended source history left (done + 1) new codes u v) :
    c.Mended source history (left + 1) done code (new :: codes) w v where
  rounds := .cons_cons round rest.rounds
  bound := Nat.succ_le_succ rest.bound
  told := by
    rw [rest.told,told,List.append_assoc,List.mapIdx_cons]
    simp only [Nat.add_assoc,Nat.add_comm 1,List.singleton_append]

/-- Before the rounds and after them there may be steps that tell of none. -/
theorem Mended.amid {w_ v_ : World} {codes : List Text}
    (mended : c.Mended source history left done code codes w v) (before : w.rounds = w_.rounds)
    (after : v_.rounds = v.rounds) : c.Mended source history left done code codes w_ v_ :=
  { mended with told := by rw [after,mended.told,before] }

/-- No round leaves more issues than there were at first. -/
theorem Mended.fewer {codes : List Text} (mended : c.Mended source history left done code codes w v)
    {last : Text} (ends : (code :: codes).getLast? = some last) :
    (c.target.issues last).length ≤ (c.target.issues code).length := by
  have falls : (code :: codes).IsChain fun old new =>
      (c.target.issues new).length ≤ (c.target.issues old).length :=
    mended.rounds.imp fun _ _ round => round.issues
  have trans : IsTrans Text fun old new =>
      (c.target.issues new).length ≤ (c.target.issues old).length :=
    ⟨fun _ _ _ first later => later.trans first⟩
  rcases List.mem_cons.1 (List.mem_of_getLast? ends) with rfl | later
  · exact Nat.le_refl _
  · exact List.rel_of_pairwise_cons falls.pairwise later

/-- Steps that mend a code, whatever comes of them; the code that they give is the last one. -/
def Mends (c : Converter) (source : Text) (history : History) (left done : Nat) (code : Text)
    (m : Run (Text × List Issue × Option Text)) : Prop :=
  ∀ w, ∃ codes, c.Mended source history left done code codes w (m.run.run w).2 ∧
    ∀ r, (m.run.run w).1 = .ok r → (code :: codes).getLast? = some r.1

theorem Mends.pure (issues : List Issue) (reason : Option Text) :
    c.Mends source history left done code (pure (code,issues,reason)) := by
  refine fun w => ⟨[],.none rfl,?_⟩
  rintro _ ⟨⟩
  rfl

theorem Mends.after {α : Type} {m : Run α} {f : α → Run (Text × List Issue × Option Text)}
    (aside : Aside m) (next : ∀ a, c.Mends source history left done code (f a)) :
    c.Mends source history left done code (m >>= f) := by
  intro w
  rw [run_bind]
  cases same : m.run.run w with
  | mk r u =>
    cases r with
    | error e => exact ⟨[],.none (aside.ran same),fun _ ends => by cases ends⟩
    | ok a =>
      obtain ⟨codes,mended,last⟩ := next a u
      exact ⟨codes,mended.amid (aside.ran same) rfl,last⟩

/-- One round, and those that follow it. -/
theorem Mends.round {f : Text → Run (Text × List Issue × Option Text)}
    (wanting : c.target.issues code ≠ [])
    (next : ∀ new, c.Mends source history left (done + 1) new (f new)) :
    c.Mends source history (left + 1) done code (do
      let new ← c.repairOnce code (c.target.issues code) history
      c.emit (c.roundEvent source (done + 1) (c.target.issues new).length)
      f new) := by
  intro w
  rw [run_bind]
  cases ran : (c.repairOnce code (c.target.issues code) history).run.run w with
  | mk r u =>
    have quiet : Quiet (c.repairOnce code (c.target.issues code) history) := fun _ => rfl
    have same : u.rounds = w.rounds := quiet.aside.ran ran
    cases r with
    | error e => exact ⟨[],.none same,fun _ ends => by cases ends⟩
    | ok new =>
      have repaired : (c.repairer.repair code (c.target.issues code) (some history) w.line).1 = .ok new :=
        ok_of_mapError (congrArg Prod.fst ran)
      obtain ⟨codes,mended,last⟩ := next new (u.publish c.watches
        (c.roundEvent source (done + 1) (c.target.issues new).length))
      have round : c.Round history code new :=
        ⟨wanting,⟨w,u,ran⟩,c.repairer.issues_repair repaired⟩
      refine ⟨new :: codes,.round round ?_ mended,?_⟩
      · rw [World.rounds_publish,same]
        rfl
      · intro r ends
        rw [List.getLast?_cons_cons]
        exact last r ends

/-- The induction is on the rounds that may follow; each begins with the issues of its code. -/
theorem mends_repairRounds (source : Text) (history : History) (left done : Nat) (code : Text) :
    c.Mends source history left done code
      (c.repairRounds source history left done code (c.target.issues code)) := by
  induction left generalizing done code with
  | zero =>
    unfold repairRounds
    split
    · exact .pure _ _
    · exact .pure _ _
  | succ left ih =>
    unfold repairRounds
    split
    · exact .pure _ _
    · rename_i some_
      refine .after (.poll _) fun _ => .after (Quiet.talk _).aside fun wanted => ?_
      split
      · exact .round (by simpa using some_) fun new => ih _ new
      · exact .pure _ _

/-- However the work on the code of a file ends, the code went through rounds of repair, and the file
comes out with the last code. -/
theorem mended_finish (source output content code : Text) (failed : List Int) (history : History)
    (w : World) :
    ∃ codes, c.Mended source history c.settings.run.maxRepairRounds 0 code codes w
        ((c.finish source output content code failed history).run.run w).2 ∧
      ∀ f, ((c.finish source output content code failed history).run.run w).1 = .ok f →
        f.outcome ≠ .failed → f.failedChunks = failed ∧ (f.exhausted = true ↔ f.issues ≠ []) ∧
          (code :: codes).getLast? = some f.content := by
  unfold finish
  split
  · refine ⟨[],.none rfl,?_⟩
    rintro _ ⟨⟩ some_
    exact absurd rfl some_
  · obtain ⟨codes,mended,last⟩ :=
      c.mends_repairRounds source history c.settings.run.maxRepairRounds 0 code w
    refine ⟨codes,?_⟩
    rw [run_bind]
    cases repaired : (c.repairRounds source history c.settings.run.maxRepairRounds 0 code
        (c.target.issues code)).run.run w with
    | mk r u =>
      rw [repaired] at mended last
      cases r with
      | error e => exact ⟨mended,fun _ ends => by cases ends⟩
      | ok r =>
        dsimp only
        rw [run_bind]
        cases saved : (c.saveTranscript source history).run.run u with
        | mk r_ v =>
          have mended := mended.amid rfl ((quiet_saveTranscript source history).aside.ran saved)
          cases r_ with
          | error e => exact ⟨mended,fun _ ends => by cases ends⟩
          | ok _ =>
            refine ⟨mended,?_⟩
            rintro _ ⟨⟩ -
            exact ⟨rfl,by simp,last r rfl⟩

/-- What a file that did not fail says of its code is true of it, and rounds of repair have led to that
code from the one that the file was put together with. -/
structure Justified (c : Converter) (source : Text) (history : History) (code : Text) (f : Converted)
    (w v : World) : Prop where
  issues : f.issues = c.target.issues f.content
  fewer : f.issues.length ≤ (c.target.issues code).length
  mended : ∃ codes, c.Mended source history c.settings.run.maxRepairRounds 0 code codes w v ∧
    (code :: codes).getLast? = some f.content
  exhausted : f.exhausted = true ↔ f.issues ≠ []
  clean : f.outcome = .clean ↔ f.issues = [] ∧ f.failedChunks = []

theorem justified_finish {source output content code : Text} {failed : List Int} {history : History}
    {f : Converted} {w v : World}
    (ran : (c.finish source output content code failed history).run.run w = (.ok f,v))
    (some_ : f.outcome ≠ .failed) :
    f.failedChunks = failed ∧ c.Justified source history code f w v := by
  obtain ⟨codes,mended,ends⟩ := c.mended_finish source output content code failed history w
  rw [ran] at mended ends
  obtain ⟨same,exhausted,last⟩ := ends f rfl some_
  obtain ⟨issues,clean⟩ := (c.judged_finish source output content code failed history).ok ran some_
  exact ⟨same,issues,issues ▸ mended.fewer last,⟨codes,mended,last⟩,exhausted,clean⟩

end Converter

end Recast
