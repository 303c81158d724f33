import Recast.Proofs.Run.Overwrite

/-! The calls over one store, one after the other, each in the files that the last one left. The
checkpoints of all of them are intact exactly if no call recorded a file over the output of one that
had been completed before. -/
namespace Recast
open Converter

/-- A project is begun, or it goes on from a checkpoint. -/
inductive Order where
  | anew (id : Text) (files : List Source)
  | resume (p : Progress) (files : Option (List Source))

structure Call where
  converter : Converter
  order : Order
  before : World

namespace Call

def run (call : Call) : Run RunResult := match call.order with
  | .anew id files => call.converter.runProject id none files
  | .resume p files => call.converter.resume p files

def result (call : Call) : Except RunError RunResult := (call.run.run.run call.before).1

def after (call : Call) : World := (call.run.run.run call.before).2

theorem ran (call : Call) : call.run.run.run call.before = (call.result,call.after) := rfl

/-- The progress that a call goes on from. -/
def start (call : Call) : Progress := match call.order with
  | .anew id files => call.converter.newProgress id (normalized files).length
  | .resume p _ => p

/-- The files that a call is for; without files they are looked for below the root. -/
def files? (call : Call) : Option (List Source) := match call.order with
  | .anew _ files => some files
  | .resume p none => call.before.tree.sources (.ofText p.root)
      call.converter.settings.language.inputExtension
  | .resume _ files => files

/-- A new project has a name for its checkpoints. Otherwise the checkpoint is the last one that was
saved, or another one that is still true of the files. -/
def Begins (s : Store) (call : Call) : Prop := match call.order with
  | .anew id _ => Path.Plain (id ++ ".json")
  | .resume p _ => ∃ q : Progress, q.Alike p ∧ (Deed.latest call.before.deeds = some q ∨
      s.Stands q ∧ q.Intact call.before.deeds call.before.tree)

/-- The call recorded a file over the output of one that had been completed before it. -/
def Overwrites (call : Call) : Prop :=
  ∃ p, call.after.progress = some p ∧ call.converter.Overwrites call.start p

/-- What is promised of a call: its files have places of their own, the service sends texts, the
outputs stay away from the store, and no file fails to be read or written. -/
structure Fits (s : Store) (call : Call) : Prop where
  store : call.converter.store = s
  begins : call.Begins s
  sends : call.converter.service.SendsTexts
  places : ∃ Name, call.converter.target.Spreads call.converter.settings.language.package Name ∧
    ∀ source name, Name name →
      ¬ s.Inside (outputKey call.start (call.converter.namer.outputOf source name))
  suited : ∀ files, call.files? = some files →
    call.converter.Suited call.start ((normalized files).map Prod.fst)
  idle : call.before.progress = none
  fine : ∀ e, call.result = .error e → ¬ e.OfFiles

theorem run_eq {call : Call} {files : List Source} (found : call.files? = some files) :
    ∃ id begins, call.start = call.converter.startOf id begins files ∧
      call.run.run.run call.before = (call.converter.runProject id begins files).run.run call.before := by
  obtain ⟨c,order,before⟩ := call
  cases order with
  | anew id given =>
    cases found
    exact ⟨id,none,rfl,rfl⟩
  | resume p given =>
    refine ⟨p.id,some p,rfl,?_⟩
    cases given with
    | some given =>
      cases found
      rfl
    | none =>
      change before.tree.sources (.ofText p.root) c.settings.language.inputExtension = _ at found
      change (c.resume p none).run.run before = _
      unfold resume
      rw [Steps.run_bind,Steps.run_get]
      dsimp only
      rw [found]

/-- A call that finds no files does nothing. -/
theorem run_none {call : Call} (found : call.files? = none) :
    call.run.run.run call.before = (.error .noPattern,call.before) := by
  obtain ⟨c,order,before⟩ := call
  cases order with
  | anew id given => cases found
  | resume p given =>
    cases given with
    | some given => cases found
    | none =>
      change before.tree.sources (.ofText p.root) c.settings.language.inputExtension = _ at found
      change (c.resume p none).run.run before = _
      unfold resume
      rw [Steps.run_bind,Steps.run_get]
      dsimp only
      rw [found]
      rfl

variable {s : Store} {call : Call}

/-- What a call goes on from stands, and it is intact if all checkpoints were. -/
theorem Begins.stands (begins : call.Begins s) (checked : s.Checked call.before) :
    s.Stands call.start ∧
      (Sound call.before.deeds → call.start.Intact call.before.deeds call.before.tree) := by
  obtain ⟨c,order,before⟩ := call
  cases order with
  | anew id files =>
    have none_ (a : Text) : ¬ (c.newProgress id (normalized files).length).isCompleted a = true :=
      fun held => by cases held
    exact ⟨⟨fun a held => absurd held (none_ a),begins,.nil,.nil⟩,fun _ =>
      ⟨fun a _ held => absurd held (none_ a),fun a held => absurd held (none_ a)⟩⟩
  | resume p files =>
    obtain ⟨q,alike,last | ⟨stands,intact⟩⟩ := begins
    · obtain ⟨stands,intact⟩ := checked q last
      exact ⟨stands.alike alike,fun sound => (stands.sameFiles alike).intact (intact sound)⟩
    · exact ⟨stands.alike alike,fun _ => (stands.sameFiles alike).intact intact⟩

theorem Fits.ended (fits : call.Fits s) (checked : s.Checked call.before) :
    call.converter.Ended call.start call.before call.after := by
  obtain ⟨Name,spreads,clear⟩ := fits.places
  obtain ⟨stands,_⟩ := fits.begins.stands checked
  have store := fits.store
  cases found : call.files? with
  | none =>
    have same : call.after = call.before := congrArg Prod.snd (run_none found)
    rw [same]
    refine ⟨List.suffix_refl _,by rw [store]; exact checked,fun p held => ?_,fun sound _ _ => sound⟩
    rw [fits.idle] at held
    cases held
  | some files =>
    obtain ⟨id,begins,same,opened⟩ := run_eq found
    subst store
    exact ended_runProject spreads clear fits.sends same (fits.suited files found) stands checked
      fits.idle (opened.symm.trans call.ran) fits.fine

end Call

/-- Calls over a store, the last one first. Each finds the files as the one before it left them. -/
inductive Calls (s : Store) : List Call → World → Prop
  | nil {w : World} : w.deeds = [] → Calls s [] w
  | cons {calls : List Call} {w : World} {call : Call} : Calls s calls w → call.before.tree = w.tree →
      call.before.deeds = w.deeds → call.Fits s → Calls s (call :: calls) call.after

namespace Calls
variable {s : Store} {calls : List Call} {w v : World}

theorem checked (made : Calls s calls w) : s.Checked w := by
  induction made with
  | nil none_ =>
    intro q last
    rw [none_] at last
    cases last
  | cons made tree deeds fits ih =>
    have ended := fits.ended (ih.same tree deeds)
    rw [← fits.store]
    exact ended.checked

/-- The checkpoints of all calls over a store are intact exactly if no call recorded a file over the
output of one that had been completed before it. -/
theorem sound_iff (made : Calls s calls w) : Sound w.deeds ↔ ∀ call ∈ calls, ¬ call.Overwrites := by
  induction made with
  | nil none_ =>
    rw [none_]
    exact ⟨fun _ call member => (List.not_mem_nil member).elim,fun _ => trivial⟩
  | @cons calls w call made tree deeds fits ih =>
    have before := made.checked.same tree deeds
    have ended := fits.ended before
    rw [← deeds] at ih
    constructor
    · intro sound other member
      rcases List.mem_cons.1 member with rfl | older
      · rintro ⟨p,held,overwrites⟩
        exact ended.lost p held overwrites sound
      · exact ih.1 (sound.older ended.grown) other older
    · intro none_
      have sound := ih.2 fun other member => none_ other (List.mem_cons_of_mem _ member)
      exact ended.whole sound ((fits.begins.stands before).2 sound) fun p held overwrites =>
        none_ call List.mem_cons_self ⟨p,held,overwrites⟩

end Calls

/-! A file that failed is tried again, and its output lands on that of the other file. -/
namespace Collision

/-- Answers for one type, and in its own way for all other code. -/
def service (other : Outcome) : Service where
  answer := fun _ request =>
    if Text.occurs "class B" (Script.lastContent request) then
      { outcome := .reply (.text "<code>class B\n</code>") }
    else { outcome := other }
  reachable := .reply (.text "ready")

def converter (other : Outcome) : Converter where
  settings := {
    language := { target := "plain", inputExtension := ".src", outputExtension := ".out", prompt := [] }
    run := { maxRetries := 0 } }
  service := service other
  target := .blocks "plain" ".out" .braces
  store := ⟨.ofText "state"⟩
  now := 0

def files : List Source := [("A.src","class B\n"),("B.src","x\n")]

/-- One file is converted, and the service fails for the other one. -/
def first : Call where
  converter := converter (.failed "quota")
  order := .anew "s" files
  before := {}

/-- The progress that the first call left. -/
def kept : Progress := (Deed.latest first.after.deeds).getD (first.converter.newProgress "s" 2)

/-- The file that failed is tried again. -/
def second : Call where
  converter := converter (.reply (.text "<code>class C\n</code>"))
  order := .resume kept (some files)
  before := { tree := first.after.tree, deeds := first.after.deeds }

theorem sendsTexts {other : Outcome} (text : ∀ v, other ≠ .reply (.other v)) :
    (service other).SendsTexts := by
  intro past request v
  unfold service
  dsimp only
  split
  · simp
  · exact text v

theorem places (other : Outcome) {start : Progress} (output : start.output = "output") :
    ∃ Name, (converter other).target.Spreads (converter other).settings.language.package Name ∧
      ∀ source name, Name name → ¬ (Store.mk (.ofText "state")).Inside
        (outputKey start ((converter other).namer.outputOf source name)) := by
  have spreads : (converter other).target.Spreads (converter other).settings.language.package
      Naming.Simple := Target.spreads_blocks .braces (by decide +kernel) fun p none_ => by cases none_
  refine ⟨_,spreads,fun source name simple inside => ?_⟩
  have plain : Path.Plain ((converter other).namer.outputOf source name) :=
    spreads.plain (Path.ofText source) name simple
  have left : Key.ofPath (Path.ofText "state") = [("state" : Text)] := by decide +kernel
  have right : Key.ofPath (Path.ofText "output") = [("output" : Text)] := by decide +kernel
  unfold Store.Inside outputKey at inside
  rw [output,Key.ofPath_child plain,left,right] at inside
  have same := (List.cons_prefix_cons.1 inside).1
  revert same
  decide +kernel

theorem suited (other : Outcome) (start : Progress) (output : start.output = "output") :
    (converter other).Suited start ((normalized files).map Prod.fst) := by
  have goes : (converter other).outputOf? = (converter (.failed [])).outputOf? := rfl
  refine .of_nodup (by decide +kernel) (by rw [goes]; decide +kernel) fun o member => ?_
  unfold outputKey
  rw [output]
  rw [goes] at member
  change Path.Plain o ∧ ¬ (Store.mk (.ofText "state")).Inside (Key.ofPath ((Path.ofText "output").child o))
  revert o
  decide +kernel

theorem not_ofFiles {call : Call} (fine : call.result.isOk = true) (e : RunError)
    (same : call.result = .error e) : ¬ e.OfFiles := by
  rw [same] at fine
  cases fine

/-- The first file has gone to the place that the second one is going to. -/
theorem after_first : first.result.isOk = true ∧ (Deed.latest first.after.deeds).isSome = true ∧
    kept.output = "output" ∧ kept.isCompleted "A.src" = true ∧ kept.isCompleted "B.src" = false ∧
    kept.place? "A.src" = some (outputKey kept "B.out") := by decide +kernel

theorem after_second : second.result.isOk = true ∧
    second.after.progress.any (fun p => p.isCompleted "B.src") = true := by decide +kernel

theorem fits_first : first.Fits ⟨.ofText "state"⟩ where
  store := rfl
  begins := (by decide +kernel : Path.Plain ("s" ++ ".json"))
  sends := sendsTexts fun v same => by cases same
  places := places _ rfl
  suited := fun given found => by
    cases found
    exact suited _ _ rfl
  idle := rfl
  fine := not_ofFiles after_first.1

theorem latest_first : Deed.latest first.after.deeds = some kept := by
  obtain ⟨p,held⟩ := Option.isSome_iff_exists.1 after_first.2.1
  unfold kept
  rw [held]
  rfl

theorem fits_second : second.Fits ⟨.ofText "state"⟩ where
  store := rfl
  begins := ⟨kept,.refl _,.inl latest_first⟩
  sends := sendsTexts fun v same => by cases same
  places := places _ after_first.2.2.1
  suited := fun given found => by
    cases found
    exact suited _ _ after_first.2.2.1
  idle := rfl
  fine := not_ofFiles after_second.1

theorem calls : Calls ⟨.ofText "state"⟩ [second,first] second.after :=
  .cons (.cons (.nil rfl) rfl rfl fits_first) rfl rfl fits_second

end Collision

theorem Calls.sound_iff_collision :
    Sound Collision.second.after.deeds ↔
      ∀ call ∈ [Collision.second,Collision.first], ¬ call.Overwrites :=
  Collision.calls.sound_iff

/-- Of the calls over a store not every one keeps what the ones before it wrote. -/
theorem Calls.collision :
    ¬ ∀ (s : Store) (calls : List Call) (w : World), Calls s calls w → Sound w.deeds := by
  intro sound
  obtain ⟨p,held,completed⟩ := (Option.any_eq_true _ _).1 Collision.after_second.2
  obtain ⟨_,_,_,old,new,place⟩ := Collision.after_first
  have overwrites : Collision.second.converter.Overwrites Collision.second.start p :=
    ⟨"B.src","A.src","B.out",old,new,completed,by decide +kernel,place⟩
  have checked : (Store.mk (.ofText "state")).Checked Collision.second.before :=
    (Calls.cons (.nil rfl) rfl rfl Collision.fits_first).checked
  exact (Collision.fits_second.ended checked).lost p held overwrites
    (sound _ _ _ Collision.calls)

end Recast
