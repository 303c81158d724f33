import Mathlib.Data.List.Basic
import Recast.Proofs.Dialogue.Continuation
import Recast.Proofs.Dialogue.Session

/-! The course of a conversation. The replies that came so far settle what is asked next: an exchange goes on
as long as they bring code that is not complete, within its bound, and a conversion is a bounded list of
exchanges of which only the last one may be complete. -/
namespace Recast

/-- The service answers these requests, one after the other, with these replies. -/
inductive Service.Told (service : Service) : List Request → List Request → List Reply → Prop where
  | nil (past : List Request) : service.Told past [] []
  | cons {past more : List Request} {request : Request} {reply : Reply} {replies : List Reply} :
    (service.answer past request).outcome = .reply reply →
    service.Told (past ++ [request]) more replies →
    service.Told past (request :: more) (reply :: replies)

theorem Service.Told.append {service : Service} {past asked more : List Request} {first later : List Reply}
    (told : service.Told past asked first) (next : service.Told (past ++ asked) more later) :
    service.Told past (asked ++ more) (first ++ later) := by
  induction told with
  | nil => simpa using next
  | cons outcome _ ih =>
    apply Told.cons outcome
    apply ih
    simpa using next

/-- How an exchange stands after a reply. -/
inductive Standing where
  | goesOn
  | complete
  | brokenOff
  deriving DecidableEq

namespace History
variable (h : History)

theorem evict_sublist (messages : List Message) : (evict messages).Sublist messages := by
  unfold evict
  split
  · exact List.eraseP_sublist
  · exact List.tail_sublist messages

theorem length_evict (messages : List Message) : (evict messages).length = messages.length - 1 := by
  unfold evict
  split
  · rename_i mixed
    obtain ⟨m,member,other⟩ := List.any_eq_true.1 mixed
    exact List.length_eraseP_of_mem member other
  · exact List.length_tail

theorem evictMany_sublist (n : Nat) (messages : List Message) : (evictMany n messages).Sublist messages := by
  induction n generalizing messages with
  | zero => exact List.Sublist.refl _
  | succ n ih => exact (ih (evict messages)).trans (evict_sublist messages)

theorem length_evictMany (n : Nat) (messages : List Message) :
    (evictMany n messages).length = messages.length - n := by
  induction n generalizing messages with
  | zero => rfl
  | succ n ih =>
    rw [evictMany,ih,length_evict]
    omega

theorem append_sublist (m : Message) : (h.append m).messages.Sublist (h.messages ++ [m]) :=
  evictMany_sublist _ _

theorem length_append (m : Message) : (h.append m).messages.length = min (h.messages.length + 1) h.limit := by
  unfold append
  dsimp only
  rw [length_evictMany,List.length_append,List.length_singleton]
  omega

/-- Two messages are added, and as many go as the bound asks for. -/
theorem append_append (m n : Message) :
    ((h.append m).append n).messages.Sublist (h.messages ++ [m,n]) ∧
      ((h.append m).append n).messages.length = min (h.messages.length + 2) h.limit := by
  have limit : (h.append m).limit = h.limit := rfl
  constructor
  · have both := (append_sublist h m).append_right [n]
    rw [List.append_assoc] at both
    exact (append_sublist _ n).trans both
  · rw [length_append,length_append,limit]
    omega

end History

namespace Session
variable (s : Session)

/-- What the first reply of an exchange brings. -/
def opening (reply : Reply) : Text × Standing :=
  let tags := s.language.tags
  (reply.code tags,if !reply.hasCode tags then .brokenOff
    else if reply.isComplete tags then .complete else .goesOn)

/-- What a reply adds to a code that was quoted, cut back to its last closed block. -/
def continued (code : Text) (reply : Reply) : Text × Standing :=
  let kept := s.language.symbols.truncate code
  let (fragment,complete) := reply.continuation s.language.tags
  if complete then (kept ++ fragment,.complete)
  else if Text.blank fragment then (kept,.brokenOff) else (kept ++ fragment,.goesOn)

/-- The code that the replies of an exchange have brought, and how the exchange stands. -/
def reached : List Reply → Text × Standing
  | [] => ([],.goesOn)
  | first :: later => later.foldl (fun found reply => s.continued found.1 reply) (s.opening first)

/-- The code that is quoted behind some replies. -/
def quoted (replies : List Reply) : Text := s.language.symbols.truncate (s.reached replies).1

/-- The request behind some replies: the first one, or one that quotes the code so far. -/
def nextRequest (base : List Message) (asked : Text) (replies : List Reply) : Request where
  maxTokens := s.maxTokens
  messages := opened base asked ++ if replies.isEmpty then [] else s.followUp (s.quoted replies)

/-- The requests that more replies answer. -/
def requestsAfter (base : List Message) (asked : Text) : List Reply → List Reply → List Request
  | _, [] => []
  | before, reply :: more =>
    s.nextRequest base asked before :: requestsAfter base asked (before ++ [reply]) more

def requests (base : List Message) (asked : Text) (replies : List Reply) : List Request :=
  s.requestsAfter base asked [] replies

/-- The replies of one exchange, from its first request until it ends or comes to its bound. -/
structure Attempt (replies : List Reply) : Prop where
  bounded : replies.length ≤ s.run.maxContinuations + 1
  goesOn : ∀ before, before <+: replies → before ≠ replies → (s.reached before).2 = .goesOn
  ends : (s.reached replies).2 ≠ .goesOn ∨ replies.length = s.run.maxContinuations + 1

/-- The words of an attempt's request. -/
def wording (request : Text) (first : Bool) : Text := if first then request else redoRequest request

/-- The requests of some attempts; all but the very first one ask to start over. -/
def sent (base : List Message) (request : Text) : Bool → List (List Reply) → List Request
  | _, [] => []
  | first, replies :: later =>
    s.requests base (wording request first) replies ++ sent base request false later

/-- The newest code that is not empty, if there is any. -/
def newest (codes : List Text) : Text := (codes.filter fun code => !code.isEmpty).getLast?.getD []

/-- Attempts that follow each other, at most so many, of which only the last one may be complete. -/
structure Course (base : List Message) (request : Text) (first : Bool) (most : Nat) (line : Line)
    (attempts : List (List Reply)) (after : Line) : Prop where
  calls : after.calls = line.calls ++ s.sent base request first attempts
  told : s.service.Told line.calls (s.sent base request first attempts) attempts.flatten
  attempted : ∀ replies ∈ attempts, s.Attempt replies
  started : attempts ≠ []
  bounded : attempts.length ≤ most
  incomplete : ∀ replies ∈ attempts.dropLast, (s.reached replies).2 ≠ .complete

/-- How attempts end behind some code: the last one is complete, or there were as many as allowed. -/
def Ends (most : Nat) (code : Text) (attempts : List (List Reply)) : Except TalkError Text → Prop
  | .ok found => ∃ last, attempts.getLast? = some last ∧ s.reached last = (found,.complete)
  | .error e => attempts.length = most ∧ (∀ replies ∈ attempts, (s.reached replies).2 ≠ .complete) ∧
    e = .incomplete (s.run.maxRedos + 1)
      (newest (code :: attempts.map fun replies => (s.reached replies).1))

/-- What an exchange does once a reply left it in this standing. -/
def follow (messages : List Message) (n : Nat) (found : Text × Standing) : Talk (Text × Bool) :=
  if found.2 = .goesOn then s.goOn messages n found.1
  else pure (found.1,decide (found.2 = .complete))

theorem goOn_succ (messages : List Message) (n : Nat) (code : Text) :
    s.goOn messages (n + 1) code =
      s.ask (messages ++ s.followUp (s.language.symbols.truncate code)) >>= fun reply =>
        s.follow messages n (s.continued code reply) := by
  rw [goOn]
  refine congrArg _ (funext fun reply => ?_)
  unfold follow continued
  dsimp only
  split_ifs <;> simp_all

theorem code_of_hasCode {tags : Tags} {reply : Reply} (without : reply.hasCode tags = false) :
    reply.code tags = [] := by
  cases reply with
  | other v => rfl
  | text t =>
    have missing : Text.cut? tags.opening t = none := by
      simpa [Reply.hasCode,Tags.hasCode,Text.occurs] using without
    simp [Reply.code,Tags.code,Tags.section?,missing]

theorem exchange_eq (base : List Message) (asked : Text) :
    s.exchange base asked = s.ask (opened base asked) >>= fun reply =>
      s.follow (opened base asked) s.run.maxContinuations (s.opening reply) := by
  refine congrArg (s.ask (opened base asked) >>= ·) (funext fun reply => ?_)
  unfold follow opening
  dsimp only
  by_cases coded : reply.hasCode s.language.tags = true
  · simp only [coded,opened]
    split_ifs <;> simp_all
  · have without : reply.hasCode s.language.tags = false := by simpa using coded
    simp [without,code_of_hasCode without]

section Exchange
variable {s} {base : List Message} {asked : Text} {line : Line} {before more : List Reply} {reply : Reply}

theorem reached_concat (begun : before ≠ []) (reply : Reply) :
    s.reached (before ++ [reply]) = s.continued (s.reached before).1 reply := by
  cases before with
  | nil => exact absurd rfl begun
  | cons first later =>
    simp only [reached,List.cons_append,List.foldl_append,List.foldl_cons,List.foldl_nil]

theorem nextRequest_of_ne_nil (begun : before ≠ []) :
    s.nextRequest base asked before = ⟨s.maxTokens,opened base asked ++ s.followUp (s.quoted before)⟩ := by
  rw [nextRequest,if_neg (by simpa using begun)]

variable (base asked) in
theorem length_requestsAfter (before more : List Reply) :
    (s.requestsAfter base asked before more).length = more.length := by
  induction more generalizing before with
  | nil => rfl
  | cons reply more ih => simp [requestsAfter,ih]

theorem Attempt.ne_nil {replies : List Reply} (attempt : s.Attempt replies) : replies ≠ [] := by
  rintro rfl
  rcases attempt.ends with ended | full
  · exact ended rfl
  · simp at full

/-- Behind the given replies the exchange is answered with more of them until it ends. -/
structure Exchanged (s : Session) (base : List Message) (asked : Text) (before : List Reply) (line : Line)
    (exchange : Talk (Text × Bool)) (more : List Reply) : Prop where
  result : (exchange.run.run line).1 =
    .ok ((s.reached (before ++ more)).1,decide ((s.reached (before ++ more)).2 = .complete))
  calls : (exchange.run.run line).2.calls = line.calls ++ s.requestsAfter base asked before more
  told : s.service.Told line.calls (s.requestsAfter base asked before more) more
  attempt : s.Attempt (before ++ more)

theorem Exchanged.stop {result : Text × Bool} (attempt : s.Attempt before)
    (same : result = ((s.reached before).1,decide ((s.reached before).2 = .complete))) :
    s.Exchanged base asked before line (pure result) [] where
  result := by
    rw [List.append_nil,same]
    rfl
  calls := (List.append_nil _).symm
  told := .nil _
  attempt := by rwa [List.append_nil]

theorem Exchanged.ask {next : Reply → Talk (Text × Bool)}
    (outcome : (s.service.answer line.calls (s.nextRequest base asked before)).outcome = .reply reply)
    (rest : s.Exchanged base asked (before ++ [reply])
      (s.service.answered (s.nextRequest base asked before) line) (next reply) more) :
    s.Exchanged base asked before line (s.service.ask (s.nextRequest base asked before) >>= next)
      (reply :: more) := by
  have joined : before ++ reply :: more = before ++ [reply] ++ more := by simp
  have ran : (s.service.ask (s.nextRequest base asked before) >>= next).run.run line =
      (next reply).run.run (s.service.answered (s.nextRequest base asked before) line) := by
    rw [Steps.run_bind,Service.run_ask,outcome]
    rfl
  refine ⟨?_,?_,.cons outcome rest.told,?_⟩
  · rw [ran,joined]
    exact rest.result
  · rw [ran,rest.calls]
    simp [Service.answered,requestsAfter]
  · rw [joined]
    exact rest.attempt

/-- An attempt comes to its end with the reply behind some that let it go on. -/
theorem attempt_concat (under : ∀ part, part <+: before → (s.reached part).2 = .goesOn)
    (room : before.length ≤ s.run.maxContinuations)
    (ended : (s.reached (before ++ [reply])).2 ≠ .goesOn) : s.Attempt (before ++ [reply]) where
  bounded := by simpa using room
  goesOn := by
    intro part begins proper
    rcases List.prefix_concat_iff.1 begins with same | shorter
    · exact absurd same proper
    · exact under part shorter
  ends := .inl ended

theorem under_concat (under : ∀ part, part <+: before → (s.reached part).2 = .goesOn)
    (open_ : (s.reached (before ++ [reply])).2 = .goesOn) :
    ∀ part, part <+: before ++ [reply] → (s.reached part).2 = .goesOn := by
  intro part begins
  rcases List.prefix_concat_iff.1 begins with rfl | shorter
  · exact open_
  · exact under part shorter

theorem exchanged_follow (n : Nat) (under : ∀ part, part <+: before → (s.reached part).2 = .goesOn)
    (room : before.length ≤ s.run.maxContinuations)
    (goesOn : (∀ part, part <+: before ++ [reply] → (s.reached part).2 = .goesOn) →
      ∃ more, s.Exchanged base asked (before ++ [reply]) line
        (s.goOn (opened base asked) n (s.reached (before ++ [reply])).1) more) :
    ∃ more, s.Exchanged base asked (before ++ [reply]) line
      (s.follow (opened base asked) n (s.reached (before ++ [reply]))) more := by
  unfold follow
  split
  · rename_i open_
    exact goesOn (under_concat under open_)
  · rename_i ended
    exact ⟨[],.stop (attempt_concat under room ended) rfl⟩

/-- One round adds a reply; the replies so far and the rounds left make up the bound. -/
theorem exchanged_goOn (replies : s.service.Replies) (n : Nat) (begun : before ≠ [])
    (under : ∀ part, part <+: before → (s.reached part).2 = .goesOn)
    (room : before.length + n = s.run.maxContinuations + 1) :
    ∃ more, s.Exchanged base asked before line (s.goOn (opened base asked) n (s.reached before).1) more := by
  induction n generalizing before line with
  | zero =>
    have open_ := under before (List.prefix_refl _)
    refine ⟨[],.stop ⟨by omega,fun part begins _ => under part begins,.inr room⟩ ?_⟩
    rw [open_]
    rfl
  | succ n ih =>
    obtain ⟨reply,outcome⟩ := replies line.calls (s.nextRequest base asked before)
    obtain ⟨more,rest⟩ : ∃ more, s.Exchanged base asked (before ++ [reply])
        (s.service.answered (s.nextRequest base asked before) line)
        (s.follow (opened base asked) n (s.reached (before ++ [reply]))) more := by
      apply exchanged_follow n under (by omega)
      intro under
      apply ih (by simp) under
      rw [List.length_append,List.length_singleton]
      omega
    refine ⟨reply :: more,?_⟩
    rw [goOn_succ,ask,← quoted,← nextRequest_of_ne_nil begun]
    apply Exchanged.ask outcome
    rwa [← reached_concat begun]

theorem exchanged_exchange (replies : s.service.Replies) (base : List Message) (asked : Text) (line : Line) :
    ∃ more, s.Exchanged base asked [] line (s.exchange base asked) more := by
  obtain ⟨reply,outcome⟩ := replies line.calls (s.nextRequest base asked [])
  have request : s.nextRequest base asked [] = ⟨s.maxTokens,opened base asked⟩ := by
    simp [nextRequest]
  have under : ∀ part, part <+: [] → (s.reached part).2 = .goesOn := by
    intro part begins
    rw [List.prefix_nil.1 begins]
    rfl
  obtain ⟨more,rest⟩ : ∃ more, s.Exchanged base asked [reply]
      (s.service.answered (s.nextRequest base asked []) line)
      (s.follow (opened base asked) s.run.maxContinuations (s.reached [reply])) more := by
    apply exchanged_follow s.run.maxContinuations under (Nat.zero_le _)
    intro under
    exact exchanged_goOn replies _ (by simp) under (Nat.add_comm _ _)
  refine ⟨reply :: more,?_⟩
  rw [exchange_eq,ask,← request]
  exact .ask outcome rest

end Exchange

section Attempts
variable {s} {base : List Message} {request : Text} {first : Bool} {n : Nat} {line after : Line}
  {code : Text} {attempts : List (List Reply)} {result : Except TalkError Text}

theorem newest_latest (code found : Text) (codes : List Text) :
    newest (latest code found :: codes) = newest (code :: found :: codes) := by
  unfold newest latest
  cases found with
  | nil => simp
  | cons c rest => cases code <;> simp [List.getLast?_cons]

theorem newest_singleton (code : Text) : newest [code] = code := by
  cases code <;> rfl

theorem Course.single {replies : List Reply} {exchange : Talk (Text × Bool)}
    (only : s.Exchanged base (wording request first) [] line exchange replies) :
    s.Course base request first (n + 1) line [replies] (exchange.run.run line).2 where
  calls := by simpa [sent,requests] using only.calls
  told := by simpa [sent,requests] using only.told
  attempted := by simpa using only.attempt
  started := by simp
  bounded := by simp
  incomplete := by simp

theorem Course.cons {replies : List Reply} {exchange : Talk (Text × Bool)}
    (one : s.Exchanged base (wording request first) [] line exchange replies)
    (incomplete : (s.reached replies).2 ≠ .complete)
    (rest : s.Course base request false n (exchange.run.run line).2 attempts after) :
    s.Course base request first (n + 1) line (replies :: attempts) after where
  calls := by
    rw [rest.calls,one.calls]
    simp [sent,requests]
  told := one.told.append (by simpa only [← one.calls] using rest.told)
  attempted := by
    rintro found (_ | ⟨_,member⟩)
    · exact one.attempt
    · exact rest.attempted found member
  started := by simp
  bounded := by simpa using rest.bounded
  incomplete := by
    rw [List.dropLast_cons_of_ne_nil rest.started]
    rintro found (_ | ⟨_,member⟩)
    · exact incomplete
    · exact rest.incomplete found member

theorem Ends.cons {replies : List Reply}
    (incomplete : (s.reached replies).2 ≠ .complete)
    (ends : s.Ends n (latest code (s.reached replies).1) attempts result) :
    s.Ends (n + 1) code (replies :: attempts) result := by
  cases result with
  | ok found =>
    obtain ⟨last,same,reached⟩ := ends
    exact ⟨last,by rw [List.getLast?_cons,same]; rfl,reached⟩
  | error e =>
    obtain ⟨size,none_,same⟩ := ends
    refine ⟨by simp [size],?_,?_⟩
    · rintro found (_ | ⟨_,member⟩)
      · exact incomplete
      · exact none_ found member
    · rw [same,newest_latest]
      rfl

theorem Exchanged.run {replies : List Reply} {asked : Text}
    (exchanged : s.Exchanged base asked [] line (s.exchange base asked) replies) :
    (s.exchange base asked).run.run line = (.ok ((s.reached replies).1,
      decide ((s.reached replies).2 = .complete)),((s.exchange base asked).run.run line).2) :=
  Prod.ext exchanged.result rfl

variable (base request) in
/-- Each attempt that is not complete leaves one fewer; the code is the newest one until then. -/
theorem run_attempts (replies : s.service.Replies) (n : Nat) (first : Bool) (code : Text) (line : Line) :
    ∃ attempts, s.Course base request first (n + 1) line attempts
        ((s.attempts base request n first code).run.run line).2 ∧
      s.Ends (n + 1) code attempts ((s.attempts base request n first code).run.run line).1 := by
  induction n generalizing first code line with
  | zero =>
    obtain ⟨answers,one⟩ := exchanged_exchange replies base (wording request first) line
    have course : s.Course base request first 1 line [answers] _ := .single one
    refine ⟨[answers],?_⟩
    rw [attempts,Steps.run_bind,← wording,one.run]
    dsimp only
    split
    · rename_i complete
      exact ⟨course,answers,rfl,Prod.ext rfl (by simpa using complete)⟩
    · rename_i incomplete
      refine ⟨course,rfl,by simpa using incomplete,?_⟩
      rw [← newest_singleton (latest _ _),newest_latest]
      rfl
  | succ n ih =>
    obtain ⟨answers,one⟩ := exchanged_exchange replies base (wording request first) line
    rw [attempts,Steps.run_bind,← wording,one.run]
    dsimp only
    split
    · rename_i complete
      have course : s.Course base request first (n + 1 + 1) line [answers] _ := .single one
      exact ⟨[answers],course,answers,rfl,Prod.ext rfl (by simpa using complete)⟩
    · rename_i incomplete
      obtain ⟨later,course,ends⟩ := ih false (latest code (s.reached answers).1)
        ((s.exchange base (wording request first)).run.run line).2
      have ended : (s.reached answers).2 ≠ .complete := by simpa using incomplete
      exact ⟨answers :: later,course.cons one ended,ends.cons ended⟩

variable (base request) in
theorem length_sent_le (attempted : ∀ replies ∈ attempts, s.Attempt replies) (first : Bool) :
    (s.sent base request first attempts).length ≤ attempts.length * (s.run.maxContinuations + 1) := by
  induction attempts generalizing first with
  | nil => simp [sent]
  | cons replies later ih =>
    have one := (attempted replies (by simp)).bounded
    have rest := ih (fun found member => attempted found (by simp [member])) false
    simp only [sent,requests,List.length_append,length_requestsAfter,List.length_cons,Nat.succ_mul]
    omega

variable (base request first) in
theorem sent_ne_nil (attempted : ∀ replies ∈ attempts, s.Attempt replies) (started : attempts ≠ []) :
    s.sent base request first attempts ≠ [] := by
  cases attempts with
  | nil => exact absurd rfl started
  | cons replies later =>
    have size := (attempted replies (by simp)).ne_nil
    intro nothing
    have none_ := (List.append_eq_nil_iff.1 nothing).1
    exact size (List.eq_nil_of_length_eq_zero (by
      rw [← length_requestsAfter base (wording request first) [] replies]
      exact congrArg List.length none_))

/-- The code of the attempts is handed back, and with the first request it enters the history. -/
theorem run_convert_filled (s : Session) (prompt : Text) {chunk : Text} (context : Text) (history : History)
    (line : Line) (filled : Text.blank chunk = false) :
    (s.convert prompt chunk context history).run.run line =
      Prod.map (Except.map fun code =>
          (code,(history.append ⟨.user,Session.request prompt chunk context⟩).append
            ⟨.assistant,s.language.tags.opening ++ code ++ s.language.tags.closing⟩)) id
        ((s.attempts history.messages (Session.request prompt chunk context) s.run.maxRedos true []).run.run
          line) := by
  unfold convert
  rw [if_neg (by simp [filled])]
  exact Steps.run_map _ _ line

end Attempts

/-- A conversion makes at least one request and no more than the two bounds allow. Each of them stands
behind the messages of the history alone; what an attempt before brought is in none of them. Only the
first request and the whole code enter the history, and without a complete attempt the newest code is
handed back. -/
theorem convert_bounded {s : Session} (replies : s.service.Replies) (prompt chunk context : Text)
    (history : History) (line : Line) :
    let request := Session.request prompt chunk context
    let ran := (s.convert prompt chunk context history).run.run line
    (Text.blank chunk = true → ran = (.ok (chunk,history),line)) ∧
      (Text.blank chunk = false → ∃ attempts,
        s.Course history.messages request true (s.run.maxRedos + 1) line attempts ran.2 ∧
        1 ≤ (s.sent history.messages request true attempts).length ∧
        (s.sent history.messages request true attempts).length ≤
          (s.run.maxRedos + 1) * (s.run.maxContinuations + 1) ∧
        s.Ends (s.run.maxRedos + 1) [] attempts (ran.1.map Prod.fst) ∧
        ∀ code updated, ran.1 = .ok (code,updated) →
          let question : Message := ⟨.user,request⟩
          let answer : Message :=
            ⟨.assistant,s.language.tags.opening ++ code ++ s.language.tags.closing⟩
          updated = (history.append question).append answer ∧
            updated.messages.Sublist (history.messages ++ [question,answer]) ∧
            updated.messages.length = min (history.messages.length + 2) history.limit) := by
  dsimp only
  refine ⟨fun blank => ?_,fun filled => ?_⟩
  · unfold convert
    rw [if_pos blank]
    rfl
  · obtain ⟨attempts,course,ends⟩ :=
      run_attempts history.messages (Session.request prompt chunk context) replies s.run.maxRedos true [] line
    rw [s.run_convert_filled prompt context history line filled]
    generalize Session.request prompt chunk context = request at *
    generalize (s.attempts history.messages request s.run.maxRedos true []).run.run line = done at *
    obtain ⟨result,after⟩ := done
    have begun := sent_ne_nil history.messages request true course.attempted course.started
    have some_ := List.length_pos_iff.2 begun
    have size := length_sent_le history.messages request course.attempted true
    have most := Nat.le_trans size (Nat.mul_le_mul_right _ course.bounded)
    refine ⟨attempts,course,some_,most,?_,?_⟩
    · cases result with
      | ok code => exact ends
      | error e => exact ends
    · intro code updated ok
      cases result with
      | error e => cases ok
      | ok whole =>
        cases ok
        exact ⟨rfl,History.append_append history _ _⟩

/-- A service that gives these replies one after the other, and then empty ones. -/
def inOrder (replies : List Reply) : Service where
  answer := fun past _ => { outcome := .reply (replies[past.length]?.getD (.text [])) }
  reachable := .reply (.text "yes")

/-- The first attempt has no code, the second one is cut off for good, and the third one is complete
once it went on from the block that it closed. -/
theorem convert_bounded_thrice :
    let s : Session := {
      service := inOrder [.other (.bool true),.text "<code>f{a}b",.text " ",.text "<code>g{c}x",
        .text "y{z}</code>"]
      language := {
        target := "plain", inputExtension := ".src", outputExtension := ".out", prompt := "Translate." }
      run := {} }
    let ran := (s.convert "Translate." "code" [] s.newHistory).run.run {}
    (ran.1.map Prod.fst).toOption = some "g{c}y{z}".toList ∧ ran.2.calls.length = 5 ∧
      ∃ attempts, s.Course s.newHistory.messages (Session.request "Translate." "code" []) true 3 {}
        attempts ran.2 ∧ s.Ends 3 [] attempts (ran.1.map Prod.fst) := by
  intro s ran
  have replies : s.service.Replies := fun past request => ⟨_,rfl⟩
  obtain ⟨attempts,course,_,_,ends,_⟩ :=
    (convert_bounded replies "Translate." "code" [] s.newHistory {}).2 (by decide +kernel)
  exact ⟨by decide +kernel,by decide +kernel,attempts,course,ends⟩

end Session

end Recast
