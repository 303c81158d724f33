import Recast.Dialogue.Script
import Recast.Proofs.Run.Retry
import Recast.Proofs.Run.Rounds
import Recast.Proofs.Source.Partition

/-! The conversions that an attempt at a file is made of, one for each text that is sent: a chunk, or
the outline of a long type and the bodies of its members. They make all requests that come before the
repair, and the chunks that failed are those for which one of them did not come to an end. -/
namespace Recast
open Steps

namespace Run
variable {α β : Type}

/-- What is found once some steps have come to their end; nothing if they fail. -/
def following (m : Run α) (found : α → World → List β) (w : World) : List β :=
  match m.run.run w with
  | (.ok a,v) => found a v
  | (.error _,_) => []

theorem following_of_ok {m : Run α} {w v : World} {a : α} (ran : m.run.run w = (.ok a,v))
    (found : α → World → List β) : m.following found w = found a v := by rw [following,ran]

theorem ok_of_told {m : Run α} {w : World} {holds : α → Bool}
    (told : (m.run.run w).1.toOption.any holds = true) :
    ∃ a, m.run.run w = (.ok a,(m.run.run w).2) ∧ holds a = true := by
  obtain ⟨a,same,fine⟩ := Converter.Resumption.ok_of_any told
  exact ⟨a,Prod.ext same rfl,fine⟩

/-- Steps that make no request, whatever comes of them. -/
def Silent (m : Run α) : Prop := Relates (fun w v : World => v.line.calls = w.line.calls) m

theorem silent_emit (watches : List Watch) (e : Event) : (emit watches e).Silent := fun _ => rfl

theorem silent_poll (watches : List Watch) : (poll watches).Silent :=
  relates_poll (fun _ => rfl) (fun before after => after.trans before) (fun _ _ _ => rfl) fun _ _ => rfl

end Run

/-- A text that is converted, and the line to the service as it is then. -/
structure Conversion where
  prompt : Text
  text : Text
  context : Text
  history : History
  line : Line

namespace Conversion
variable (s : Session)

def run (x : Conversion) : Except TalkError (Text × History) × Line :=
  (s.convert x.prompt x.text x.context x.history).run.run x.line

/-- None of the exchanges of the conversion came to an end. -/
def Incomplete (x : Conversion) : Prop :=
  ∃ attempts code, (x.run s).1 = .error (.incomplete attempts code)

/-- Conversions that are made one after the other, and all requests between two points with them. -/
def Chained : List Request → List Conversion → List Request → Prop
  | calls, [], later => later = calls
  | calls, x :: rest, later => x.line.calls = calls ∧ Chained (x.run s).2.calls rest later

variable {s} {calls between later : List Request} {xs ys : List Conversion}

theorem Chained.append (first : Chained s calls xs between) (rest : Chained s between ys later) :
    Chained s calls (xs ++ ys) later := by
  induction xs generalizing calls with
  | nil => exact first ▸ rest
  | cons x xs ih => exact ⟨first.1,ih first.2⟩

end Conversion

namespace Converter
variable (c : Converter)

/-- The conversions of the bodies of a long type. -/
def bodyConversions (context : Text) : List Text → History → World → List Conversion
  | [], _ => fun _ => []
  | body :: rest, history => c.poll.following fun _ w =>
    ⟨c.settings.language.prompt,body,context,history,w.line⟩ ::
      (c.convertText c.settings.language.prompt body context history).following
        (fun r => bodyConversions context rest r.2.1) w

/-- The conversions of a chunk. -/
def chunkConversions (chunk : Chunk) (context : Text) (history : History) (w : World) :
    List Conversion :=
  if Chunk.needsOutline c.settings.language chunk then
    let outline := Outline.ofText c.settings.language.symbols chunk.text
    let prompt := c.settings.language.prompt ++ "\n\n" ++ outlineNote
    let bodyContext := Text.trim (context ++ "\n\nThe member belongs to:\n" ++ outline.text)
    ⟨prompt,outline.text,context,history,w.line⟩ ::
      (c.convertText prompt outline.text context history).following
        (fun r => c.bodyConversions bodyContext outline.bodies r.2.1) w
  else [⟨c.settings.language.prompt,chunk.text,context,history,w.line⟩]

/-- The conversions of some chunks, each with the number of its chunk. -/
def conversions (source context : Text) (total : Nat) :
    List Chunk → History → World → List (Nat × Conversion)
  | [], _ => fun _ => []
  | chunk :: rest, history => c.poll.following fun _ w =>
    (c.chunkConversions chunk context history w).map (fun x => (chunk.index,x)) ++
      (c.convertChunk chunk context history).following (fun r =>
        (c.emit (chunkEvent source chunk.index total)).following fun _ =>
          conversions source context total rest r.2.1) w

/-- Conversions that were made between two worlds, and whether all of them came to an end. -/
structure Made (c : Converter) (xs : List Conversion) (complete : Bool) (w v : World) : Prop where
  incomplete : complete = false ↔ ∃ x ∈ xs, x.Incomplete c.session
  chained : Conversion.Chained c.session w.line.calls xs v.line.calls

section
variable {c} {xs ys : List Conversion} {complete complete_ : Bool} {w u v : World}

theorem Made.nil : c.Made [] true w w := ⟨by simp,rfl⟩

theorem Made.append (first : c.Made xs complete w u) (rest : c.Made ys complete_ u v) :
    c.Made (xs ++ ys) (complete && complete_) w v where
  incomplete := by
    rw [Bool.and_eq_false_iff,first.incomplete,rest.incomplete]
    simp only [List.mem_append,or_and_right,exists_or]
  chained := first.chained.append rest.chained

/-- Steps that make no request go before conversions. -/
theorem Made.after (made : c.Made xs complete u v) (silent : u.line.calls = w.line.calls) :
    c.Made xs complete w v :=
  ⟨made.incomplete,silent ▸ made.chained⟩

theorem made_convertText {prompt text context code : Text} {history later : History}
    (ran : (c.convertText prompt text context history).run.run w = (.ok (code,later,complete),v)) :
    c.Made [⟨prompt,text,context,history,w.line⟩] complete w v := by
  have made {r : Except TalkError (Text × History)} {line : Line}
      (answer : (c.session.convert prompt text context history).run.run w.line = (r,line))
      (same : v.line = line)
      (ends : complete = false ↔ ∃ attempts partialCode, r = .error (.incomplete attempts partialCode)) :
      c.Made [⟨prompt,text,context,history,w.line⟩] complete w v := by
    refine ⟨?_,rfl,?_⟩
    · simp only [List.mem_singleton,exists_eq_left,Conversion.Incomplete,Conversion.run,answer,ends]
    · rw [same,Conversion.run,answer]
      rfl
  rw [run_convertText] at ran
  cases answer : (c.session.convert prompt text context history).run.run w.line with
  | mk r line =>
    rw [answer] at ran
    cases r with
    | ok found =>
      cases ran
      exact made answer rfl (by simp)
    | error t =>
      cases t with
      | incomplete attempts partialCode =>
        cases ran
        exact made answer rfl (by simp)
      | service why => cases ran
      | notText => cases ran

theorem made_convertBodies {context : Text} {bodies codes : List Text} {history later : History}
    (ran : (c.convertBodies context bodies history).run.run w = (.ok (codes,later,complete),v)) :
    c.Made (c.bodyConversions context bodies history w) complete w v := by
  induction bodies generalizing codes history complete w with
  | nil =>
    cases ran
    exact .nil
  | cons body rest ih =>
    obtain ⟨_,u,polled,ran⟩ := ok_of_run_bind ran
    obtain ⟨⟨code,history_,done⟩,t,first,ran⟩ := ok_of_run_bind ran
    obtain ⟨⟨more,later_,done_⟩,v_,others,ends⟩ := ok_of_run_bind ran
    cases ends
    have here := (made_convertText first).append (ih others)
    unfold bodyConversions
    rw [Run.following_of_ok polled,Run.following_of_ok first]
    exact here.after ((Run.silent_poll _).ran polled)

theorem made_convertChunk {chunk : Chunk} {context code : Text} {history later : History}
    (ran : (c.convertChunk chunk context history).run.run w = (.ok (code,later,complete),v)) :
    c.Made (c.chunkConversions chunk context history w) complete w v := by
  unfold convertChunk at ran
  unfold chunkConversions
  split at ran
  · rename_i long
    rw [if_pos long]
    unfold convertOutline at ran
    obtain ⟨⟨outline,history_,done⟩,u,first,ran⟩ := ok_of_run_bind ran
    obtain ⟨⟨bodies,later_,done_⟩,v_,others,ends⟩ := ok_of_run_bind ran
    cases ends
    dsimp only
    rw [Run.following_of_ok first]
    exact (made_convertText first).append (made_convertBodies others)
  · rename_i whole
    rw [if_neg whole]
    exact made_convertText ran

/-- The conversions of some chunks that were made between two worlds, and the chunks that failed: in
their order, those for which a conversion did not come to an end. -/
structure Worked (c : Converter) (chunks : List Chunk) (xs : List (Nat × Conversion)) (failed : List Int)
    (w v : World) : Prop where
  order : failed.Sublist (chunks.map fun chunk => (chunk.index : Int))
  incomplete : ∀ j, j ∈ failed ↔ ∃ e ∈ xs, e.2.Incomplete c.session ∧ j = (e.1 : Int)
  chained : Conversion.Chained c.session w.line.calls (xs.map Prod.snd) v.line.calls

variable {chunk : Chunk} {chunks : List Chunk} {failed : List Int} {more : List (Nat × Conversion)}

theorem Worked.nil : c.Worked [] [] [] w w := ⟨.slnil,by simp,rfl⟩

/-- Steps that make no request go before the chunks. -/
theorem Worked.after (worked : c.Worked chunks more failed u v) (silent : u.line.calls = w.line.calls) :
    c.Worked chunks more failed w v :=
  { worked with chained := silent ▸ worked.chained }

theorem Worked.cons (made : c.Made xs complete w u) (rest : c.Worked chunks more failed u v) :
    c.Worked (chunk :: chunks) (xs.map (fun x => (chunk.index,x)) ++ more)
      (if complete then failed else (chunk.index : Int) :: failed) w v where
  order := by
    cases complete with
    | true => exact rest.order.cons _
    | false => exact rest.order.cons_cons _
  incomplete := by
    intro j
    have here : (∃ e ∈ xs.map (fun x => (chunk.index,x)),
        e.2.Incomplete c.session ∧ j = (e.1 : Int)) ↔ complete = false ∧ j = (chunk.index : Int) := by
      rw [made.incomplete]
      constructor
      · rintro ⟨_,member,broken,same⟩
        obtain ⟨x,inside,rfl⟩ := List.mem_map.1 member
        exact ⟨⟨x,inside,broken⟩,same⟩
      · rintro ⟨⟨x,inside,broken⟩,same⟩
        exact ⟨_,List.mem_map_of_mem inside,broken,same⟩
    simp only [List.mem_append,or_and_right,exists_or]
    rw [here,← rest.incomplete]
    cases complete with
    | true => simp
    | false => simp
  chained := by
    rw [List.map_append,List.map_map]
    simpa [Function.comp_def] using made.chained.append rest.chained

theorem worked_convertChunks {source context code : Text} {total : Nat} {history later : History}
    (ran : (c.convertChunks source context total chunks history).run.run w = (.ok (code,failed,later),v)) :
    c.Worked chunks (c.conversions source context total chunks history w) failed w v := by
  induction chunks generalizing code failed history w with
  | nil =>
    cases ran
    exact .nil
  | cons chunk rest ih =>
    obtain ⟨_,u,polled,ran⟩ := ok_of_run_bind ran
    obtain ⟨⟨code_,history_,complete⟩,t,converted,ran⟩ := ok_of_run_bind ran
    obtain ⟨_,told,emitted,ran⟩ := ok_of_run_bind ran
    obtain ⟨⟨more,failed_,later_⟩,v_,others,ends⟩ := ok_of_run_bind ran
    cases ends
    -- Only the conversions make requests; the point where a run can be stopped and the event do not.
    have silent : told.line.calls = t.line.calls := (Run.silent_emit _ _).ran emitted
    have made := (made_convertChunk converted).after ((Run.silent_poll _).ran polled)
    unfold conversions
    rw [Run.following_of_ok polled,Run.following_of_ok converted,Run.following_of_ok emitted]
    exact .cons made ((ih others).after silent)

/-- The chunks of a text that failed come in the order of the chunks, each of them once. -/
theorem Worked.rising {content : Text}
    (worked : c.Worked (Chunk.split c.settings.language content) more failed w v) :
    failed.Pairwise (· < ·) := by
  refine List.Pairwise.sublist worked.order ?_
  have numbers : (Chunk.split c.settings.language content).map (fun chunk => (chunk.index : Int)) =
      (List.range (Chunk.split c.settings.language content).length).map Nat.cast := by
    rw [← Chunk.map_index_split,List.map_map]
    rfl
  rw [numbers,List.pairwise_map]
  exact List.pairwise_lt_range.imp fun less => Int.ofNat_lt.2 less

end

section
variable {c} {source output content given : Text} {f : Converted} {w v : World}

theorem quiet_convertText (prompt text context : Text) (history : History) :
    Quiet (c.convertText prompt text context history) := by
  unfold convertText
  refine (Quiet.talk _).observe.bind fun r => ?_
  split
  · exact .pure _
  · exact .pure _
  · exact .throw _

theorem aside_convertBodies (context : Text) (bodies : List Text) (history : History) :
    Aside (c.convertBodies context bodies history) := by
  induction bodies generalizing history with
  | nil => exact (Quiet.pure _).aside
  | cons body rest ih =>
    unfold convertBodies
    refine (Aside.poll _).bind fun _ => (quiet_convertText _ _ _ _).aside.bind fun _ => ?_
    exact (ih _).bind fun _ => (Quiet.pure _).aside

theorem aside_convertChunks (source context : Text) (total : Nat) (chunks : List Chunk)
    (history : History) : Aside (c.convertChunks source context total chunks history) := by
  have one (chunk : Chunk) (history : History) : Aside (c.convertChunk chunk context history) := by
    unfold convertChunk
    split
    · unfold convertOutline
      refine (quiet_convertText _ _ _ _).aside.bind fun _ => ?_
      exact (aside_convertBodies _ _ _).bind fun _ => (Quiet.pure _).aside
    · exact (quiet_convertText _ _ _ _).aside
  induction chunks generalizing history with
  | nil => exact (Quiet.pure _).aside
  | cons chunk rest ih =>
    unfold convertChunks
    refine (Aside.poll _).bind fun _ => (one _ _).bind fun _ => ?_
    refine (Aside.emit _ (by simp [chunkEvent])).bind fun _ => ?_
    exact (ih _).bind fun _ => (Quiet.pure _).aside

/-- What is known of other files is looked up, and nothing else is done. -/
theorem exists_summaryContext (given : Text) (w : World) :
    ∃ context, (c.summaryContext given).run.run w = (.ok context,w) := by
  unfold summaryContext
  split
  · exact ⟨given,rfl⟩
  · exact ⟨_,rfl⟩

/-- However an attempt ends, the rounds that were told in it are those of one code. -/
theorem mended_convertOnce (source output content given : Text) (w : World) :
    ∃ history code codes, c.Mended source history c.settings.run.maxRepairRounds 0 code codes w
      ((c.convertOnce source output content given).run.run w).2 := by
  obtain ⟨context,known⟩ := c.exists_summaryContext given w
  unfold convertOnce
  dsimp only
  rw [run_bind,known]
  dsimp only
  rw [run_bind]
  cases converted : (c.convertChunks source context (Chunk.split c.settings.language content).length
      (Chunk.split c.settings.language content) c.session.newHistory).run.run w with
  | mk r u =>
    have aside := (c.aside_convertChunks _ _ _ _ _).ran converted
    cases r with
    | error e => exact ⟨c.session.newHistory,[],[],.none aside⟩
    | ok r =>
      obtain ⟨code,failed,history⟩ := r
      obtain ⟨codes,mended,-⟩ := c.mended_finish source output content code failed history u
      exact ⟨history,code,codes,mended.amid aside rfl⟩

/-- An attempt that a file came out of, with the code that was put together for it, the history of the
conversations and the world in which the last chunk was converted. -/
structure Attempted (c : Converter) (source output content given : Text) (f : Converted) (w v : World)
    (context code : Text) (history : History) (t : World) : Prop where
  ran : (c.convertOnce source output content given).run.run w = (.ok f,v)
  known : (c.summaryContext given).run.run w = (.ok context,w)
  converted : (c.convertChunks source context (Chunk.split c.settings.language content).length
    (Chunk.split c.settings.language content) c.session.newHistory).run.run w =
      (.ok (code,f.failedChunks,history),t)
  justified : c.Justified source history code f w v
  rising : f.failedChunks.Pairwise (· < ·)
  incomplete : ∀ j, j ∈ f.failedChunks ↔ ∃ e ∈ c.conversions source context
    (Chunk.split c.settings.language content).length (Chunk.split c.settings.language content)
    c.session.newHistory w, e.2.Incomplete c.session ∧ j = (e.1 : Int)
  chained : Conversion.Chained c.session w.line.calls ((c.conversions source context
    (Chunk.split c.settings.language content).length (Chunk.split c.settings.language content)
    c.session.newHistory w).map Prod.snd) t.line.calls

theorem attempted_convertOnce
    (ran : (c.convertOnce source output content given).run.run w = (.ok f,v))
    (some_ : f.outcome ≠ .failed) :
    ∃ context code history t, c.Attempted source output content given f w v context code history t := by
  have ran_ := ran
  obtain ⟨context,known⟩ := c.exists_summaryContext given w
  unfold convertOnce at ran
  dsimp only at ran
  rw [run_bind,known] at ran
  obtain ⟨⟨code,failed,history⟩,t,converted,finished⟩ := ok_of_run_bind ran
  obtain ⟨rfl,justified⟩ := justified_finish finished some_
  have aside := (c.aside_convertChunks _ _ _ _ _).ran converted
  obtain ⟨codes,mended,last⟩ := justified.mended
  have worked := worked_convertChunks converted
  exact ⟨context,code,history,t,ran_,known,converted,
    { justified with mended := ⟨codes,mended.amid aside rfl,last⟩ },worked.rising,worked.incomplete,
    worked.chained⟩

/-- A file that comes out of its attempts either says why the service failed, or the last attempt gave
it. -/
theorem tries_retry {once : Run Converted} {failure : Text → Converted} {left tried : Nat}
    (ran : (c.retry once failure left tried).run.run w = (.ok f,v)) :
    (∃ why, f = failure why) ∨
      ∃ earlier last, c.Tries once tried w (earlier ++ [last]) v ∧ once.run.run last = (.ok f,v) := by
  -- An attempt that the service fails in is the only one that another may follow.
  induction left using Nat.strongRecOn generalizing tried w with
  | _ left ih =>
    cases ends : once.run.run w with
    | mk r u =>
      by_cases fails : ∃ why, r = .error (.talk (.service why))
      · obtain ⟨why,rfl⟩ := fails
        cases left with
        | zero =>
          rw [run_retry_gaveUp ends] at ran
          cases ran
          exact .inl ⟨why,rfl⟩
        | succ left =>
          rw [run_retry_again ends] at ran
          refine (ih left (Nat.lt_succ_self left) ran).imp_right ?_
          rintro ⟨earlier,last,tries,gives⟩
          refine ⟨w :: earlier,last,.again ?_,gives⟩
          rwa [ends]
      · rw [run_retry ends fun why same => fails ⟨why,same⟩] at ran
        cases ran
        exact .inr ⟨[],w,.alone ends,ends⟩

end

/-- A file that did not fail, whether it was converted by itself or came out of a merged answer, says
of its code what is true of it. Rounds of repair have led to that code, none of which left more issues
than it found, and in no attempt were there more of them than the settings allow. The chunks that failed
are those of the last attempt for which a conversion did not come to an end. -/
theorem convertFile_justified (c : Converter) :
    (∀ (path content given : Text) (f : Converted) (w v : World),
      (c.convertFile path content given).run.run w = (.ok f,v) → f.outcome ≠ .failed →
      ∃ output earlier last context code history t,
        c.outputOf? (Path.ofText path).toText = some output ∧
        c.Tries (c.convertOnce (Path.ofText path).toText output content given) 0 w (earlier ++ [last]) v ∧
        (∀ u ∈ earlier, ∃ history code codes, c.Mended (Path.ofText path).toText history
          c.settings.run.maxRepairRounds 0 code codes u
          ((c.convertOnce (Path.ofText path).toText output content given).run.run u).2) ∧
        c.Attempted (Path.ofText path).toText output content given f last v context code history t) ∧
    ∀ (source output content code : Text) (history : History) (f : Converted) (w v : World),
      (c.finish source output content code [] history).run.run w = (.ok f,v) → f.outcome ≠ .failed →
      f.failedChunks = [] ∧ c.Justified source history code f w v := by
  refine ⟨fun path content given f w v ran some_ => ?_,fun _ _ _ _ _ _ _ _ => justified_finish⟩
  unfold convertFile at ran
  dsimp only at ran
  split at ran
  · cases ran
  · rename_i output named
    rcases tries_retry ran with ⟨why,rfl⟩ | ⟨earlier,last,tries,gives⟩
    · exact absurd rfl some_
    · obtain ⟨context,code,history,t,attempted⟩ := attempted_convertOnce gives some_
      exact ⟨output,earlier,last,context,code,history,t,named,tries,
        fun u _ => mended_convertOnce _ _ _ _ u,attempted⟩

/-- The first call fails. After it no answer for the text "two" comes to an end, a line that does not
parse is replaced by one that does, and everything else becomes a line that does not parse. -/
def haltingService : Service where
  answer := fun past request =>
    if past = [] then { outcome := .failed "busy" }
    else if Text.occurs "does not parse" (Script.lastContent request) then
      { outcome := .reply (.text "<code>x</code>") }
    else if Text.occurs "two" (Script.lastContent request) then { outcome := .reply (.text "<code>y") }
    else { outcome := .reply (.text "<code>\x7d\n</code>") }
  reachable := .reply (.text "ready")

/-- A converter that has each line for a chunk, and asks for each of them once. -/
def halting : Converter where
  settings := {
    language := {
      target := "plain", inputExtension := ".src", outputExtension := ".out", prompt := "Translate."
      chunkSize := 1 }
    run := { maxContinuations := 0, maxRedos := 0 } }
  service := haltingService
  target := .blocks "plain" ".out" .braces
  store := ⟨.ofText "state"⟩
  now := 0

/-- The world behind a call that has failed. -/
def calledOnce : World := { line := { calls := [⟨0,[]⟩] } }

theorem convertFile_justified_halting :
    (∃ f v, (halting.convertFile "a.src" "one\ntwo\n" []).run.run {} = (.ok f,v) ∧
      f.outcome ≠ .failed ∧ f.content = "x\ny\n" ∧ f.failedChunks = [1] ∧ v.rounds.length = 1 ∧
      ∃ output earlier last context code history t,
        halting.outputOf? (Path.ofText "a.src").toText = some output ∧
        halting.Tries (halting.convertOnce (Path.ofText "a.src").toText output "one\ntwo\n" []) 0 {}
          (earlier ++ [last]) v ∧
        (∀ u ∈ earlier, ∃ history code codes, halting.Mended (Path.ofText "a.src").toText history 5 0
          code codes u
          ((halting.convertOnce (Path.ofText "a.src").toText output "one\ntwo\n" []).run.run u).2) ∧
        halting.Attempted (Path.ofText "a.src").toText output "one\ntwo\n" [] f last v context code
          history t) ∧
    ∃ f v, (halting.finish "a.src" "a.out" "one" "\x7d\n" [] halting.session.newHistory).run.run
        calledOnce = (.ok f,v) ∧ f.outcome ≠ .failed ∧ f.content = "x\n" ∧ f.failedChunks = [] ∧
      halting.Justified "a.src" halting.session.newHistory "\x7d\n" f calledOnce v := by
  have told : ((halting.convertFile "a.src" "one\ntwo\n" []).run.run {}).1.toOption.any
      (fun f : Converted =>
        decide (f.outcome ≠ .failed ∧ f.content = "x\ny\n" ∧ f.failedChunks = [1])) = true := by
    decide +kernel
  have rounds : ((halting.convertFile "a.src" "one\ntwo\n" []).run.run {}).2.rounds.length = 1 := by
    decide +kernel
  have told_ : ((halting.finish "a.src" "a.out" "one" "\x7d\n" [] halting.session.newHistory).run.run
      calledOnce).1.toOption.any (fun f : Converted =>
        decide (f.outcome ≠ .failed ∧ f.content = "x\n")) = true := by
    decide +kernel
  obtain ⟨f,ran,shape⟩ := Run.ok_of_told told
  obtain ⟨some_,content,failed⟩ := of_decide_eq_true shape
  obtain ⟨f_,ran_,shape_⟩ := Run.ok_of_told told_
  obtain ⟨others,content_⟩ := of_decide_eq_true shape_
  have alone := (halting.convertFile_justified).1 "a.src" "one\ntwo\n" [] f {} _ ran some_
  have merged := (halting.convertFile_justified).2 "a.src" "a.out" "one" "\x7d\n" _ f_ calledOnce _ ran_
    others
  exact ⟨⟨f,_,ran,some_,content,failed,rounds,alone⟩,f_,_,ran_,others,content_,merged⟩

end Converter

end Recast
