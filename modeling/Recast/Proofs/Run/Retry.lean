import Recast.Proofs.Dialogue.Following
import Recast.Proofs.Run.Failure
import Recast.Proofs.Run.Lossless

/-! A file converted by a service whose calls fail now and then, next to the same file converted by a
service that never fails. Until a call fails both conversions are level. Of an attempt in which one
has failed nothing is left but its requests and events, so the next attempt starts level again. -/
namespace Recast

namespace Steps
variable {ε σ α β : Type} {R Q : σ → σ → Prop} {B : ε → σ → Prop} {allowed : ε → Prop}

/-- From related states both ways end alike and in related states, with an error of a kind if with
any, unless the first one breaks off. -/
def Mirrors (R Q : σ → σ → Prop) (B : ε → σ → Prop) (allowed : ε → Prop) (m n : Steps ε σ α) : Prop :=
  ∀ s t, R s t → (∃ r s_ t_, m.run.run s = (r,s_) ∧ n.run.run t = (r,t_) ∧ Q s_ t_ ∧
      ∀ e, r = .error e → allowed e) ∨
    ∃ e s_, m.run.run s = (.error e,s_) ∧ B e s_

theorem Mirrors.pure (a : α) : Mirrors R R B allowed (pure a : Steps ε σ α) (pure a) :=
  fun s t related => .inl ⟨.ok a,s,t,rfl,rfl,related,fun _ same => by cases same⟩

/-- Steps that do not fail are followed by others, which may loosen the relation and may fail. -/
theorem Mirrors.bind {m n : Steps ε σ α} {f g : α → Steps ε σ β}
    (first : Mirrors R R B (fun _ => False) m n) (next : ∀ a, Mirrors R Q B allowed (f a) (g a)) :
    Mirrors R Q B allowed (m >>= f) (n >>= g) := by
  intro s t related
  rcases first s t related with ⟨r,s_,t_,left,right,after,none_⟩ | ⟨e,s_,left,broken⟩
  · cases r with
    | error e => exact (none_ e rfl).elim
    | ok a =>
      rw [run_bind,run_bind,left,right]
      exact next a s_ t_ after
  · refine .inr ⟨e,s_,?_,broken⟩
    rw [run_bind,left]

theorem Mirrors.map {m n : Steps ε σ α} (mirrors : Mirrors R Q B allowed m n) (f : α → β) :
    Mirrors R Q B allowed (m >>= fun a => Pure.pure (f a)) (n >>= fun a => Pure.pure (f a)) := by
  intro s t related
  rcases mirrors s t related with ⟨r,s_,t_,left,right,after,kinds⟩ | ⟨e,s_,left,broken⟩
  · rw [run_bind,run_bind,left,right]
    cases r with
    | ok a => exact .inl ⟨.ok (f a),s_,t_,rfl,rfl,after,fun _ same => by cases same⟩
    | error e =>
      refine .inl ⟨.error e,s_,t_,rfl,rfl,after,fun _ same => ?_⟩
      cases same
      exact kinds e rfl
  · refine .inr ⟨e,s_,?_,broken⟩
    rw [run_bind,left]

theorem Mirrors.mono {m n : Steps ε σ α} (mirrors : Mirrors R R B (fun _ => False) m n)
    (weaker : ∀ s t, R s t → Q s t) : Mirrors R Q B allowed m n := by
  intro s t related
  refine (mirrors s t related).imp ?_ id
  rintro ⟨r,s_,t_,left,right,after,none_⟩
  exact ⟨r,s_,t_,left,right,weaker _ _ after,fun e same => (none_ e same).elim⟩

end Steps

open Steps

namespace Service

/-- Wherever the service replies, its reply follows from the request. -/
def Wavers (service : Service) (g : Request → Reply) : Prop :=
  ∀ past request reply, (service.answer past request).outcome = .reply reply → reply = g request

/-- Every request is answered with the reply that follows from it. -/
def Holds (service : Service) (g : Request → Reply) : Prop :=
  ∀ past request, (service.answer past request).outcome = .reply (g request)

theorem Holds.replies {service : Service} {g : Request → Reply} (holds : service.Holds g) :
    service.Replies := fun past request => ⟨g request,holds past request⟩

/-- A service that falters, and one that never fails: where the first one replies, both reply as the
request asks for. Neither has a run cancelled. -/
structure Falters (a b : Service) (g : Request → Reply) : Prop where
  wavers : a.Wavers g
  goesOn : a.GoesOn
  holds : b.Holds g
  goesOn_ : b.GoesOn

/-- The call fails, and this is what is said of it. -/
def Fails (service : Service) (past : List Request) (request : Request) (why : Text) : Prop :=
  (service.answer past request).outcome.result = .error (.service why)

/-- One of the calls that were made since then has failed. -/
def Struck (service : Service) (past now : List Request) : Prop :=
  ∃ before request why, past ++ before ++ [request] <+: now ∧ service.Fails (past ++ before) request why

/-- The call that was made last has failed. -/
def Broke (service : Service) (past now : List Request) (why : Text) : Prop :=
  ∃ before request, now = past ++ before ++ [request] ∧ service.Fails (past ++ before) request why

theorem Broke.struck {service : Service} {past now : List Request} {why : Text}
    (broke : service.Broke past now why) : service.Struck past now := by
  obtain ⟨before,request,rfl,fails⟩ := broke
  exact ⟨before,request,why,List.prefix_rfl,fails⟩

theorem not_struck_self (service : Service) (past : List Request) : ¬ service.Struck past past := by
  rintro ⟨before,request,why,inside,fails⟩
  have short := inside.length_le
  simp only [List.length_append,List.length_singleton] at short
  omega

end Service

/-- Two lines on which a run may go on. On the first one no call has failed since a point. -/
structure Line.Level (service : Service) (past : List Request) (l k : Line) : Prop where
  onward : past <+: l.calls
  spared : ¬ service.Struck past l.calls
  running : l.Running
  running_ : k.Running

/-- The conversation has ended since the service has failed. -/
def Line.Down (service : Service) (past : List Request) (e : TalkError) (l : Line) : Prop :=
  ∃ why, e = .service why ∧ service.Broke past l.calls why ∧ l.Running

/-- As long as the service replies, its line is level with the one of a service that never fails. -/
theorem Service.Falters.follows_ask {a b : Service} {g : Request → Reply} (falters : a.Falters b g)
    (past : List Request) (request : Request) :
    Follows (Line.Level a past) (Line.Level a past) (Line.Down a past) (a.ask request)
      (b.ask request) := by
  intro l k level
  rw [run_ask,run_ask]
  have running := level.running.answered falters.goesOn request
  obtain ⟨before,whole⟩ := level.onward
  cases told : (a.answer l.calls request).outcome with
  | reply r =>
    obtain rfl := falters.wavers _ _ _ told
    have spared : ¬ a.Struck past (l.calls ++ [request]) := by
      rintro ⟨early,other,why,inside,fails⟩
      rcases List.prefix_concat_iff.1 inside with same | inside
      · obtain ⟨calls,asked⟩ := List.append_inj' same rfl
        obtain rfl := List.singleton_inj.1 asked
        rw [Fails,calls,told] at fails
        cases fails
      · exact level.spared ⟨early,other,why,inside,fails⟩
    refine .inl ⟨by rw [falters.holds],?_⟩
    exact ⟨level.onward.trans (List.prefix_append _ _),spared,running,
      level.running_.answered falters.goesOn_ request⟩
  | failed why =>
    refine .inr ⟨_,rfl,why,rfl,⟨before,request,by rw [whole]; rfl,?_⟩,running⟩
    rw [Fails,whole,told]
    rfl
  | crashed why =>
    refine .inr ⟨_,rfl,_,rfl,⟨before,request,by rw [whole]; rfl,?_⟩,running⟩
    rw [Fails,whole,told]
    rfl

namespace World

/-- The files and the progress are as they were. -/
structure Still (u w : World) : Prop where
  tree : w.tree = u.tree
  progress : w.progress = u.progress

theorem Still.trans {u v w : World} (first : u.Still v) (second : v.Still w) : u.Still w :=
  ⟨second.tree.trans first.tree,second.progress.trans first.progress⟩

theorem Still.symm {u v : World} (still : u.Still v) : v.Still u := ⟨still.tree.symm,still.progress.symm⟩

theorem Onward.still {w v : World} (on : w.Onward v) : w.Still v := ⟨on.tree,on.progress⟩

/-- The world after a pause. -/
def slept (w : World) (seconds : Float) : World := { w with delays := w.delays ++ [seconds] }

/-- An attempt that began at a world, and a conversion that nothing fails in, are at the same point. -/
structure Level (service : Service) (u w v : World) : Prop where
  line : w.line.Level service u.line.calls v.line
  still : u.Still w
  still_ : u.Still v
  delays : w.delays = u.delays

/-- An attempt that began at a world has ended since the service has failed. -/
def Down (service : Service) (u : World) (e : RunError) (w : World) : Prop :=
  (∃ t, e = .talk t ∧ w.line.Down service u.line.calls t) ∧ u.Still w ∧ w.delays = u.delays

/-- An attempt that began at a world has ended, and no call has failed. -/
def Spared (service : Service) (u w : World) : Prop :=
  ¬ service.Struck u.line.calls w.line.calls ∧ w.delays = u.delays

namespace Level
variable {service : Service} {u w v : World}

theorem begin (running : u.line.Running) (running_ : v.line.Running) (still : u.Still v) :
    Level service u u v :=
  ⟨⟨List.prefix_rfl,service.not_struck_self _,running,running_⟩,⟨rfl,rfl⟩,still,rfl⟩

theorem spared (level : Level service u w v) : Spared service u w := ⟨level.line.spared,level.delays⟩

/-- Events and pauses leave both conversions level. -/
theorem onward {w_ v_ : World} (level : Level service u w v) (on : w.Onward w_) (on_ : v.Onward v_) :
    Level service u w_ v_ where
  line := {
    onward := on.calls ▸ level.line.onward
    spared := on.calls ▸ level.line.spared
    running := on.running
    running_ := on_.running }
  still := level.still.trans on.still
  still_ := level.still_.trans on_.still
  delays := on.delays.trans level.delays

theorem relined (level : Level service u w v) {l k : Line} (lines : l.Level service u.line.calls k) :
    Level service u { w with line := l } { v with line := k } :=
  ⟨lines,⟨level.still.tree,level.still.progress⟩,⟨level.still_.tree,level.still_.progress⟩,level.delays⟩

theorem down (level : Level service u w v) {l : Line} {t : TalkError}
    (down : l.Down service u.line.calls t) : Down service u (.talk t) { w with line := l } :=
  ⟨⟨t,rfl,down⟩,⟨level.still.tree,level.still.progress⟩,level.delays⟩

end Level

end World

/-- The steps stay level, and fail only where the service does. -/
abbrev Faithful {α : Type} (service : Service) (u : World) (m n : Run α) : Prop :=
  Mirrors (World.Level service u) (World.Level service u) (World.Down service u) (fun _ => False) m n

namespace Run
variable {a : Service} {u : World} {α : Type}

theorem faithful_talk {m n : Talk α}
    (follows : Follows (Line.Level a u.line.calls) (Line.Level a u.line.calls)
      (Line.Down a u.line.calls) m n)
    (obeys : Obeys n (fun _ => True) fun _ => False) : Faithful a u (talk m) (talk n) := by
  intro w v level
  rw [run_talk,run_talk]
  rcases follows w.line v.line level.line with ⟨same,lines⟩ | ⟨t,same,down⟩
  · obtain ⟨found,ends⟩ := obeys.ends v.line
    rw [same,ends]
    exact .inl ⟨_,_,_,rfl,rfl,level.relined lines,fun _ fails => by cases fails⟩
  · rw [same]
    exact .inr ⟨_,_,rfl,level.down down⟩

/-- Where both ways only publish events and wait, they stay level. -/
theorem faithful_of_onward {m n : Run Unit} (left : ∀ w : World, Steps.Gives w.Onward m fun _ => True)
    (right : ∀ w : World, Steps.Gives w.Onward n fun _ => True) : Faithful a u m n := by
  intro w v level
  obtain ⟨_,w_,ran,_,on⟩ := left w w (.refl level.line.running)
  obtain ⟨_,v_,ran_,_,on_⟩ := right v v (.refl level.line.running_)
  exact .inl ⟨.ok (),w_,v_,ran,ran_,level.onward on on_,fun _ same => by cases same⟩

end Run

namespace Converter
variable (c : Converter)

/-- The converter with another service. -/
def on (c : Converter) (service : Service) : Converter := { c with service := service }

theorem session_on (service : Service) : (c.on service).session = c.session.on service := rfl

theorem repairer_on (service : Service) : (c.on service).repairer = c.repairer.on service := rfl

theorem saveTranscript_on (service : Service) (source : Text) (history : History) :
    (c.on service).saveTranscript source history = c.saveTranscript source history := rfl

/-- A text is converted as far as the conversation comes, and only a failure goes on to the run. -/
theorem run_convertText (prompt text context : Text) (history : History) (w : World) :
    (c.convertText prompt text context history).run.run w =
      match (c.session.convert prompt text context history).run.run w.line with
      | (.ok (code,later),line) => (.ok (code,later,true),{ w with line := line })
      | (.error (.incomplete _ code),line) => (.ok (code,history,false),{ w with line := line })
      | (.error t,line) => (.error (.talk t),{ w with line := line }) := by
  unfold convertText
  rw [run_bind,Run.run_observe,Run.run_talk]
  generalize (c.session.convert prompt text context history).run.run w.line = answer
  obtain ⟨result,line⟩ := answer
  cases result with
  | ok found => rfl
  | error t => cases t <;> rfl

/-- A transcript is one change of the files, if it is kept at all. -/
theorem saveTranscript_eq (source : Text) (history : History) :
    (∃ change, c.saveTranscript source history = Run.files change) ∨
      c.saveTranscript source history = pure () := by
  unfold saveTranscript
  split
  · exact .inl ⟨_,rfl⟩
  · exact .inr rfl

/-- A file of the run cannot be written, since the transcript of the source does not fit in. -/
def Unwritten (source : Text) (t : Tree) (e : RunError) : Prop := e.OfFiles ∧ ¬ c.TranscriptFits source t

theorem Unwritten.not_failed {c : Converter} {source why : Text} {t : Tree} {e : RunError}
    (unwritten : c.Unwritten source t e) : e ≠ .talk (.service why) := by
  rintro rfl
  exact unwritten.1

/-- Both ways end alike, though the transcript may not have been written, and fail no sooner than
there, except where the service fails. -/
abbrev Concluded {α : Type} (source : Text) (service : Service) (u : World) (m n : Run α) : Prop :=
  Mirrors (World.Level service u) (fun w _ => World.Spared service u w) (World.Down service u)
    (c.Unwritten source u.tree) m n

section
variable {a b : Service} {u : World}

theorem faithful_summaryContext (given : Text) :
    Faithful a u ((c.on a).summaryContext given) ((c.on b).summaryContext given) := by
  intro w v level
  have same : v.progress = w.progress := (level.still.symm.trans level.still_).progress
  unfold summaryContext
  split
  · exact Mirrors.pure given w v level
  · rw [run_bind,run_bind,run_get,run_get]
    dsimp only
    rw [same]
    exact .inl ⟨_,_,_,rfl,rfl,level,fun _ same => by cases same⟩

theorem concluded_saveTranscript (source : Text) (history : History) :
    c.Concluded source a u ((c.on a).saveTranscript source history)
      ((c.on b).saveTranscript source history) := by
  intro w v level
  have same : v.tree = w.tree := (level.still.symm.trans level.still_).tree
  have written (fits : c.TranscriptFits source w.tree) := fits.run_saveTranscript history
  rw [saveTranscript_on,saveTranscript_on]
  rcases c.saveTranscript_eq source history with ⟨change,saved⟩ | unsaved
  · simp only [saved,Run.run_files] at written
    rw [saved,Run.run_files,Run.run_files,same]
    cases changed : change w.tree with
    | ok t => exact .inl ⟨_,_,_,rfl,rfl,level.spared,fun _ same => by cases same⟩
    | error fault =>
      refine .inl ⟨_,_,_,rfl,rfl,level.spared,fun e same => ?_⟩
      cases same
      refine ⟨trivial,fun fits => ?_⟩
      obtain ⟨later,ends⟩ := written (level.still.tree.symm ▸ fits)
      rw [changed] at ends
      cases ends
  · rw [unsaved]
    exact .inl ⟨_,_,_,rfl,rfl,level.spared,fun _ same => by cases same⟩

variable (watched : Watch.GoOn c.watches)
include watched

theorem faithful_poll : Faithful a u (c.on a).poll (c.on b).poll :=
  Run.faithful_of_onward (Run.onward_poll watched) (Run.onward_poll watched)

theorem faithful_emit (e : Event) : Faithful a u ((c.on a).emit e) ((c.on b).emit e) :=
  Run.faithful_of_onward (Run.onward_emit watched e) (Run.onward_emit watched e)

end

section
variable {c} {a b : Service} {g : Request → Reply} (falters : a.Falters b g) {u : World}
include falters

theorem faithful_convertText (prompt text context : Text) (history : History) :
    Faithful a u ((c.on a).convertText prompt text context history)
      ((c.on b).convertText prompt text context history) := by
  intro w v level
  have follows := Session.follows_convert (falters.follows_ask u.line.calls) c.session prompt text
    context history w.line v.line level.line
  have ends := (c.session.on b).ends_convert falters.holds.replies.obeys_ask prompt text context
    history v.line
  rw [run_convertText,run_convertText,session_on,session_on]
  generalize ((c.session.on a).convert prompt text context history).run.run w.line = first at follows
  generalize ((c.session.on b).convert prompt text context history).run.run v.line = second
    at follows ends
  obtain ⟨result,line⟩ := first
  obtain ⟨result_,line_⟩ := second
  rcases follows with ⟨same,lines⟩ | ⟨t,same,down⟩
  · cases same
    cases result with
    | ok found => exact .inl ⟨_,_,_,rfl,rfl,level.relined lines,fun _ same => by cases same⟩
    | error t =>
      obtain none_ | ⟨attempts,code,rfl⟩ := ends
      · exact none_.elim
      · exact .inl ⟨_,_,_,rfl,rfl,level.relined lines,fun _ same => by cases same⟩
  · cases same
    obtain ⟨why,rfl,broke⟩ := down
    exact .inr ⟨_,_,rfl,level.down ⟨why,rfl,broke⟩⟩

theorem faithful_confirmRepair (code : Text) (issues : List Issue) (history : History) :
    Faithful a u ((c.on a).confirmRepair code issues history)
      ((c.on b).confirmRepair code issues history) :=
  Run.faithful_talk (Session.follows_confirm (falters.follows_ask _) c.session _ _ history)
    ((c.session.on b).obeys_confirm falters.holds.replies.obeys_ask _ _ history)

theorem faithful_repairOnce (code : Text) (issues : List Issue) (history : History) :
    Faithful a u ((c.on a).repairOnce code issues history)
      ((c.on b).repairOnce code issues history) := by
  intro w v level
  let start (l : Line) : RepairState := { line := l, history := some history, best := (code,issues) }
  have loud (n : Nat) (code : Text) (line : Line) :
      ¬ Line.Down a u.line.calls (.incomplete n code) line := by
    rintro ⟨why,same,_⟩
    cases same
  have follows := Repairer.follows_passes (falters.follows_ask u.line.calls) c.repairer loud
    c.repairer.maxDepth 0 code issues (start w.line) (start v.line) ⟨⟨rfl,rfl,rfl⟩,level.line⟩
  obtain ⟨found,ends⟩ := ((c.repairer.on b).obeys_passes falters.holds.replies.obeys_ask
    c.repairer.maxDepth 0 code issues).ends (start v.line)
  have begun (service : Service) (l : Line) : (c.repairer.on service).repair code issues (some history) l =
      ((c.repairer.on service).passes c.repairer.maxDepth 0 code issues).run.run (start l) := rfl
  rw [run_repairOnce,run_repairOnce,repairer_on,repairer_on,begun,begun]
  rcases follows with ⟨same,_,lines⟩ | ⟨t,same,down⟩
  · rw [same,ends]
    exact .inl ⟨_,_,_,rfl,rfl,level.relined lines,fun _ fails => by cases fails⟩
  · rw [same]
    exact .inr ⟨_,_,rfl,level.down down⟩

variable (watched : Watch.GoOn c.watches)
include watched

theorem faithful_convertBodies (context : Text) (bodies : List Text) (history : History) :
    Faithful a u ((c.on a).convertBodies context bodies history)
      ((c.on b).convertBodies context bodies history) := by
  induction bodies generalizing history with
  | nil => exact .pure _
  | cons body rest ih =>
    unfold convertBodies
    refine (c.faithful_poll watched).bind fun _ => ?_
    refine (faithful_convertText falters _ _ _ _).bind fun _ => ?_
    exact (ih _).bind fun _ => .pure _

theorem faithful_convertChunk (chunk : Chunk) (context : Text) (history : History) :
    Faithful a u ((c.on a).convertChunk chunk context history)
      ((c.on b).convertChunk chunk context history) := by
  by_cases long : Chunk.needsOutline c.settings.language chunk = true
  · have opened (service : Service) : (c.on service).convertChunk chunk context history =
        (c.on service).convertOutline chunk.text context history := if_pos long
    rw [opened,opened]
    unfold convertOutline
    refine (faithful_convertText falters _ _ _ _).bind fun _ => ?_
    exact (faithful_convertBodies falters watched _ _ _).bind fun _ => .pure _
  · have whole (service : Service) : (c.on service).convertChunk chunk context history =
        (c.on service).convertText c.settings.language.prompt chunk.text context history := if_neg long
    rw [whole,whole]
    exact faithful_convertText falters _ _ _ _

theorem faithful_convertChunks (source context : Text) (total : Nat) (chunks : List Chunk)
    (history : History) :
    Faithful a u ((c.on a).convertChunks source context total chunks history)
      ((c.on b).convertChunks source context total chunks history) := by
  induction chunks generalizing history with
  | nil => exact .pure _
  | cons chunk rest ih =>
    unfold convertChunks
    refine (c.faithful_poll watched).bind fun _ => ?_
    refine (faithful_convertChunk falters watched _ _ _).bind fun _ => ?_
    refine (c.faithful_emit watched _).bind fun _ => ?_
    exact (ih _).bind fun _ => .pure _

theorem faithful_repairRounds (source : Text) (history : History) (left done : Nat) (code : Text)
    (issues : List Issue) :
    Faithful a u ((c.on a).repairRounds source history left done code issues)
      ((c.on b).repairRounds source history left done code issues) := by
  induction left generalizing done code issues with
  | zero =>
    unfold repairRounds
    split
    · exact .pure _
    · exact .pure _
  | succ left ih =>
    unfold repairRounds
    split
    · exact .pure _
    · refine (c.faithful_poll watched).bind fun _ => ?_
      refine (faithful_confirmRepair falters code issues history).bind fun wanted => ?_
      split
      · refine (faithful_repairOnce falters code issues history).bind fun code => ?_
        exact (c.faithful_emit watched _).bind fun _ => ih _ _ _
      · exact .pure _

theorem concluded_finish (source output content code : Text) (failed : List Int) (history : History) :
    c.Concluded source a u ((c.on a).finish source output content code failed history)
      ((c.on b).finish source output content code failed history) := by
  unfold finish
  split
  · exact (Mirrors.pure _).mono fun _ _ level => level.spared
  · refine (faithful_repairRounds falters watched _ _ _ _ _ _).bind fun repaired => ?_
    exact (c.concluded_saveTranscript source history).map _

theorem concluded_convertOnce (source output content given : Text) :
    c.Concluded source a u ((c.on a).convertOnce source output content given)
      ((c.on b).convertOnce source output content given) := by
  unfold convertOnce
  refine (c.faithful_summaryContext given).bind fun context => ?_
  refine (faithful_convertChunks falters watched _ _ _ _ _).bind fun _ => ?_
  exact concluded_finish falters watched _ _ _ _ _ _

end

/-- The pause that follows on so many others. -/
def pause (tried : Nat) : Float := c.settings.run.backoff * Float.ofNat (tried + 1)

/-- A file is tried again and again: the worlds that its attempts begin in, and the one in which the
last of them ends. The number says how many attempts came before. -/
inductive Tries (once : Run Converted) : Nat → World → List World → World → Prop
  | last (tried : Nat) (w : World) : Tries once tried w [w] (once.run.run w).2
  | again {tried : Nat} {w later : World} {rest : List World} :
      Tries once (tried + 1) ((once.run.run w).2.slept (c.pause tried)) rest later →
      Tries once tried w (w :: rest) later

/-- A call fails in the attempt that begins at a world. -/
def Struck (once : Run Converted) (w : World) : Prop :=
  c.service.Struck w.line.calls (once.run.run w).2.line.calls

/-- What becomes of a file that is tried from a world on, up to so many times again. Only the last
attempt may be one that nothing fails in; then the file is what it is when nothing ever fails.
Otherwise it says why the last call failed. -/
structure Retried (once : Run Converted) (failure : Text → Converted) (never : Except RunError Converted)
    (left tried : Nat) (w : World) (r : Except RunError Converted) (later : World)
    (earlier : List World) (last : World) : Prop where
  tries : c.Tries once tried w (earlier ++ [last]) later
  bound : earlier.length ≤ left
  delays : later.delays = w.delays ++ (List.range earlier.length).map fun i => c.pause (tried + i)
  struck : ∀ v ∈ earlier, c.Struck once v
  spared : ¬ c.Struck once last → r = never
  failed : c.Struck once last → earlier.length = left ∧
    ∃ why, c.service.Broke last.line.calls later.line.calls why ∧ r = .ok (failure why)

section
variable {c} {once sure : Run Converted} {failure : Text → Converted} {w later : World} {why : Text}

theorem run_retry_gaveUp (fails : once.run.run w = (.error (.talk (.service why)),later)) (tried : Nat) :
    (c.retry once failure 0 tried).run.run w = (.ok (failure why),later) := by
  unfold retry
  rw [run_bind,Run.run_observe,fails]
  rfl

theorem run_retry_again (fails : once.run.run w = (.error (.talk (.service why)),later))
    (left tried : Nat) : (c.retry once failure (left + 1) tried).run.run w =
      (c.retry once failure left (tried + 1)).run.run (later.slept (c.pause tried)) := by
  conv => lhs; unfold retry
  rw [run_bind,Run.run_observe,fails]
  rfl

theorem Tries.alone {r : Except RunError Converted} {tried : Nat} (ran : once.run.run w = (r,later)) :
    c.Tries once tried w [w] later := by
  have tries : c.Tries once tried w [w] (once.run.run w).2 := .last tried w
  rwa [ran] at tries

theorem struck_iff {r : Except RunError Converted} (ran : once.run.run w = (r,later)) :
    c.Struck once w ↔ c.service.Struck w.line.calls later.line.calls := by rw [Struck,ran]

namespace Retried
variable {never r : Except RunError Converted} {left tried : Nat}

/-- An attempt that nothing fails in is the last one. -/
theorem spare (ran : once.run.run w = (r,later))
    (spared : ¬ c.service.Struck w.line.calls later.line.calls) (delays : later.delays = w.delays)
    (same : r = never) : c.Retried once failure never left tried w r later [] w :=
  ⟨.alone ran,Nat.zero_le _,by simp [delays],by simp,fun _ => same,
    fun struck => absurd ((struck_iff ran).1 struck) spared⟩

/-- A failure in the last attempt that may be made ends the file. -/
theorem giveUp (ran : once.run.run w = (.error (.talk (.service why)),later))
    (broke : c.service.Broke w.line.calls later.line.calls why) (delays : later.delays = w.delays) :
    c.Retried once failure never 0 tried w (.ok (failure why)) later [] w :=
  ⟨.alone ran,Nat.le_refl _,by simp [delays],by simp,
    fun spared => absurd ((struck_iff ran).2 broke.struck) spared,fun _ => ⟨rfl,why,broke,rfl⟩⟩

/-- After a failure comes a pause, and then the file is tried from the start. -/
theorem again {between last : World} {earlier : List World}
    (ran : once.run.run w = (.error (.talk (.service why)),between))
    (broke : c.service.Broke w.line.calls between.line.calls why) (delays : between.delays = w.delays)
    (rest : c.Retried once failure never left (tried + 1) (between.slept (c.pause tried)) r later
      earlier last) :
    c.Retried once failure never (left + 1) tried w r later (w :: earlier) last where
  tries := by
    refine .again ?_
    rw [ran]
    exact rest.tries
  bound := Nat.succ_le_succ rest.bound
  delays := by
    rw [rest.delays,List.length_cons,List.range_succ_eq_map,List.map_cons,List.map_map]
    unfold World.slept
    simp [delays,Function.comp_def,Nat.add_assoc,Nat.add_comm 1]
  struck := List.forall_mem_cons.2 ⟨(struck_iff ran).2 broke.struck,rest.struck⟩
  spared := rest.spared
  failed := fun struck => ⟨congrArg (· + 1) (rest.failed struck).1,(rest.failed struck).2⟩

end Retried

variable {a b : Service} {source : Text}

/-- However often the service fails, the file comes to an end. The induction is on the attempts that
are left; each begins level with the conversion that nothing fails in, wherever that one began. -/
theorem retry_ends (concluded : ∀ u, c.Concluded source a u once sure) {v : World}
    (running_ : v.line.Running) (most begun left tried : Nat) {u : World} (running : u.line.Running)
    (still : u.Still v) :
    ∃ r later earlier last, ((c.on a).retry once failure left tried).run.run u = (r,later) ∧
      (c.on a).Retried once failure (((c.on b).retry sure failure most begun).run.run v).1 left tried u
        r later earlier last ∧
      (c.TranscriptFits source v.tree → ∃ f, r = .ok f) := by
  induction left using Nat.strongRecOn generalizing tried u with
  | _ left ih =>
    rcases concluded u u v (.begin running running_ still) with
      ⟨r,w,v_,ran,ran_,⟨spared,delays⟩,kinds⟩ | ⟨e,w,ran,⟨⟨_,rfl,why,rfl,broke,on⟩,kept,delays⟩⟩
    · have unfailed (why : Text) : r ≠ .error (.talk (.service why)) := fun same =>
        (kinds _ same).not_failed rfl
      refine ⟨r,w,[],u,run_retry ran unfailed _ _,.spare ran spared delays ?_,fun fits => ?_⟩
      · rw [run_retry ran_ unfailed]
      · cases r with
        | ok f => exact ⟨f,rfl⟩
        | error e => exact absurd (still.tree ▸ fits) (kinds e rfl).2
    · cases left with
      | zero => exact ⟨_,w,[],u,run_retry_gaveUp ran tried,.giveUp ran broke delays,fun _ => ⟨_,rfl⟩⟩
      | succ left =>
        have rested : (w.slept ((c.on a).pause tried)).line.Running := on
        have level : (w.slept ((c.on a).pause tried)).Still v := ⟨(kept.symm.trans still).tree,
          (kept.symm.trans still).progress⟩
        obtain ⟨r,later,earlier,last,ends,rest,fine⟩ :=
          ih left (Nat.lt_succ_self left) (tried + 1) rested level
        exact ⟨r,later,u :: earlier,last,(run_retry_again ran left tried).trans ends,
          .again ran broke delays rest,fine⟩

end

/-- A service that answers every request with the same code, at every other call. -/
def busyService : Service where
  answer := fun past _ => { outcome :=
    if past.length % 2 = 0 then .failed "busy" else .reply (.text "<code>x</code>") }
  reachable := .reply (.text "ready")

/-- A service that answers every request with the same code. -/
def readyService : Service where
  answer := fun _ _ => { outcome := .reply (.text "<code>x</code>") }
  reachable := .reply (.text "ready")

theorem falters_busyService :
    busyService.Falters readyService fun _ => .text "<code>x</code>" where
  wavers := by
    intro past request reply told
    unfold busyService at told
    dsimp only at told
    split at told
    · cases told
    · cases told
      rfl
  goesOn := fun _ _ member => by cases member
  holds := fun _ _ => rfl
  goesOn_ := fun _ _ member => by cases member

end Converter

end Recast
