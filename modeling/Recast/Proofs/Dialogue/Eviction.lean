import Mathlib.Data.List.Induction
import Recast.Proofs.Dialogue.Exchange
import Recast.Proofs.Dialogue.Following

/-! The messages that a bounded conversation keeps. They can be chosen at once from all that came in: the
oldest turns go, and the oldest messages of the system only where no turn is left. A system message that
opens a conversation stays its first message. -/
namespace Recast

/-- A message of the user or of the assistant. -/
def Message.isTurn (m : Message) : Bool := m.role ≠ .system

namespace History
open Message

/-- A list without the first elements of a kind, at most so many of them. -/
def without {α : Type} (p : α → Bool) : Nat → List α → List α
  | 0, xs => xs
  | _ + 1, [] => []
  | n + 1, x :: xs => if p x then without p n xs else x :: without p (n + 1) xs

section Without
variable {α : Type} {p : α → Bool} {n : Nat} {xs : List α}

theorem without_zero (xs : List α) : without p 0 xs = xs := by
  cases xs <;> rfl

theorem without_cons_of_not {x : α} (other : p x = false) (n : Nat) (xs : List α) :
    without p n (x :: xs) = x :: without p n xs := by
  cases n with
  | zero => rw [without_zero,without_zero]
  | succ n => rw [without,if_neg (by simp [other])]

theorem without_eraseP (n : Nat) (xs : List α) : without p n (xs.eraseP p) = without p (n + 1) xs := by
  induction xs with
  | nil => cases n <;> rfl
  | cons x xs ih =>
    cases kind : p x with
    | true => rw [List.eraseP_cons_of_pos kind,without,if_pos kind]
    | false =>
      rw [List.eraseP_cons_of_neg (by simp [kind]),without_cons_of_not kind,without_cons_of_not kind,ih]

theorem countP_eraseP (p : α → Bool) (xs : List α) : (xs.eraseP p).countP p = xs.countP p - 1 := by
  induction xs with
  | nil => rfl
  | cons x xs ih =>
    cases kind : p x with
    | true => rw [List.eraseP_cons_of_pos kind,List.countP_cons_of_pos kind,Nat.add_sub_cancel]
    | false =>
      rw [List.eraseP_cons_of_neg (by simp [kind]),List.countP_cons_of_neg (by simp [kind]),
        List.countP_cons_of_neg (by simp [kind]),ih]

theorem without_of_all (all : ∀ x ∈ xs, p x = true) (n : Nat) : without p n xs = xs.drop n := by
  induction xs generalizing n with
  | nil => cases n <;> rfl
  | cons x xs ih =>
    cases n with
    | zero => rfl
    | succ n => rw [without,if_pos (all x (by simp)),ih (fun y inside => all y (by simp [inside])),
        List.drop_succ_cons]

theorem without_of_none (none_ : ∀ x ∈ xs, p x = false) (n : Nat) : without p n xs = xs := by
  induction xs with
  | nil => cases n <;> rfl
  | cons x xs ih =>
    rw [without_cons_of_not (none_ x (by simp)),ih fun y inside => none_ y (by simp [inside])]

/-- More than there are go no further than all. -/
theorem without_min (n : Nat) (xs : List α) : without p (min n (xs.countP p)) xs = without p n xs := by
  induction xs generalizing n with
  | nil => cases n <;> rfl
  | cons x xs ih =>
    cases kind : p x with
    | true =>
      rw [List.countP_cons_of_pos kind]
      cases n with
      | zero => rw [Nat.zero_min]
      | succ n => rw [Nat.succ_min_succ,without,without,if_pos kind,if_pos kind,ih]
    | false =>
      rw [List.countP_cons_of_neg (by simp [kind]),without_cons_of_not kind,without_cons_of_not kind,ih]

end Without

section Evict
variable {ms : List Message}

theorem evict_of_turn {m : Message} (member : m ∈ ms) (turn : m.isTurn = true) :
    evict ms = ms.eraseP isTurn := if_pos (List.any_eq_true.2 ⟨m,member,turn⟩)

theorem evict_of_silent (silent : ∀ m ∈ ms, m.isTurn = false) : evict ms = ms.tail := by
  refine if_neg fun turns => ?_
  obtain ⟨m,member,turn⟩ := List.any_eq_true.1 turns
  exact Bool.eq_false_iff.1 (silent m member) turn

variable (ms) in
theorem turn_or_silent : (∃ m ∈ ms, m.isTurn = true) ∨ ∀ m ∈ ms, m.isTurn = false := by
  cases turns : ms.any isTurn with
  | true => exact .inl (List.any_eq_true.1 turns)
  | false => exact .inr fun m member => Bool.eq_false_iff.2 (List.any_eq_false.1 turns m member)

variable (ms) in
theorem length_eq_turns_add : ms.length = ms.countP isTurn + ms.countP fun m => !m.isTurn := by
  rw [List.length_eq_countP_add_countP isTurn]
  simp only [Bool.not_eq_true,Bool.decide_eq_false]

/-- Evictions one after the other take the oldest turns, and the oldest messages when no turn is left. -/
theorem evictMany_eq (n : Nat) (ms : List Message) :
    evictMany n ms = without (fun m => !m.isTurn) (n - ms.countP isTurn) (without isTurn n ms) := by
  induction n generalizing ms with
  | zero =>
    rw [Nat.zero_sub,without_zero,without_zero]
    rfl
  | succ n ih =>
    rw [evictMany,ih]
    rcases turn_or_silent ms with ⟨m,member,turn⟩ | silent
    · have some_ : 0 < ms.countP isTurn := List.countP_pos_iff.2 ⟨m,member,turn⟩
      have fewer : n - (ms.countP isTurn - 1) = n + 1 - ms.countP isTurn := by omega
      rw [evict_of_turn member turn,without_eraseP,countP_eraseP,fewer]
    · have none_ : ms.countP isTurn = 0 :=
        List.countP_eq_zero.2 fun m member => by simp [silent m member]
      have later : ∀ m ∈ ms.tail, m.isTurn = false := fun m member => silent m (List.mem_of_mem_tail member)
      have fewer : ms.tail.countP isTurn = 0 :=
        List.countP_eq_zero.2 fun m member => by simp [later m member]
      rw [evict_of_silent silent,fewer,none_,without_of_none later,without_of_none silent,
        without_of_all fun m member => by simp [later m member],
        without_of_all fun m member => by simp [silent m member],List.drop_tail]
      rfl

/-- It does not matter whether a message comes in before an eviction or after it, once there is a further
one. -/
theorem evict_evict_append (some_ : ms ≠ []) (m : Message) :
    evict (evict ms ++ [m]) = evict (evict (ms ++ [m])) := by
  rcases turn_or_silent ms with ⟨t,member,turn⟩ | silent
  · rw [evict_of_turn member turn,evict_of_turn (List.mem_append_left [m] member) turn,
      List.eraseP_append_left turn [m] member]
  obtain ⟨first,rest,rfl⟩ := List.exists_cons_of_ne_nil some_
  rw [evict_of_silent silent]
  cases kind : m.isTurn with
  | true =>
    -- Here the turn that came in is the one that goes.
    have later : ∀ t ∈ rest, t.isTurn = false := fun t member => silent t (by simp [member])
    have last (ts : List Message) (silent : ∀ t ∈ ts, t.isTurn = false) : evict (ts ++ [m]) = ts := by
      rw [evict_of_turn (by simp) kind,
        List.eraseP_append_right _ fun t member => Bool.eq_false_iff.1 (silent t member),
        List.eraseP_cons_of_pos kind,List.append_nil]
    rw [List.tail_cons,last rest later,last _ silent,evict_of_silent silent]
    rfl
  | false =>
    have all : ∀ t ∈ first :: rest ++ [m], t.isTurn = false := by
      intro t member
      rcases List.mem_append.1 member with before | last
      · exact silent t before
      · rwa [List.mem_singleton.1 last]
    rw [evict_of_silent all]
    rfl

theorem evict_evictMany_append {n : Nat} (room : n ≤ ms.length) (m : Message) :
    evict (evictMany n ms ++ [m]) = evictMany (n + 1) (ms ++ [m]) := by
  induction n generalizing ms with
  | zero => rfl
  | succ n ih =>
    have some_ : ms ≠ [] := List.ne_nil_of_length_pos (by omega)
    rw [evictMany,ih (by rw [length_evict]; omega),evictMany,evict_evict_append some_]
    rfl

end Evict

theorem limit_extend (h : History) (ms : List Message) : (h.extend ms).limit = h.limit := by
  unfold extend
  induction ms generalizing h with
  | nil => rfl
  | cons m ms ih => exact ih (h.append m)

theorem extend_append (h : History) (ms ns : List Message) :
    h.extend (ms ++ ns) = (h.extend ms).extend ns := List.foldl_append

/-- Message by message as much is evicted as at once. -/
theorem messages_extend_empty (limit : Nat) (ms : List Message) :
    ((empty limit).extend ms).messages = evictMany (ms.length - limit) ms := by
  induction ms using List.reverseRecOn with
  | nil =>
    rw [List.length_nil,Nat.zero_sub]
    rfl
  | append_singleton ms m ih =>
    rw [extend_append,List.length_append,List.length_singleton]
    change evictMany (_ - ((empty limit).extend ms).limit) (((empty limit).extend ms).messages ++ [m]) = _
    rw [limit_extend,ih,List.length_append,length_evictMany,List.length_singleton]
    change evictMany (ms.length - (ms.length - limit) + 1 - limit) _ = _
    by_cases room : ms.length < limit
    · have before : ms.length - limit = 0 := by omega
      have now : ms.length + 1 - limit = 0 := by omega
      rw [before,Nat.sub_zero,now]
      rfl
    · have once : ms.length - (ms.length - limit) + 1 - limit = 1 := by omega
      have now : ms.length + 1 - limit = ms.length - limit + 1 := by omega
      rw [once,now]
      exact evict_evictMany_append (by omega) m

/-- A message of the system opens the conversation, and only turns follow it. -/
structure Headed (system : Message) (h : History) : Prop where
  silent : system.isTurn = false
  opens : ∃ turns, h.messages = system :: turns ∧ ∀ m ∈ turns, m.isTurn = true
  room : 1 ≤ h.limit

theorem evictMany_headed {system : Message} (silent : system.isTurn = false) {turns : List Message}
    (spoken : ∀ m ∈ turns, m.isTurn = true) {n : Nat} (room : n ≤ turns.length) :
    evictMany n (system :: turns) = system :: turns.drop n := by
  have count : turns.countP isTurn = turns.length := List.countP_eq_length.2 spoken
  rw [evictMany_eq,List.countP_cons_of_neg (by simp [silent]),count,Nat.sub_eq_zero_of_le room,without_zero,
    without_cons_of_not silent,without_of_all spoken]

theorem Headed.append {system : Message} {h : History} (headed : Headed system h) {m : Message}
    (turn : m.isTurn = true) : Headed system (h.append m) := by
  obtain ⟨silent,⟨turns,messages,spoken⟩,room⟩ := headed
  have more : ∀ t ∈ turns ++ [m], t.isTurn = true := by
    intro t member
    rcases List.mem_append.1 member with before | last
    · exact spoken t before
    · rwa [List.mem_singleton.1 last]
  refine ⟨silent,⟨(turns ++ [m]).drop (turns.length + 2 - h.limit),?_,fun t member =>
    more t (List.mem_of_mem_drop member)⟩,room⟩
  unfold History.append
  dsimp only
  rw [messages,List.cons_append,List.length_cons,List.length_append,List.length_singleton]
  exact evictMany_headed silent more (by rw [List.length_append,List.length_singleton]; omega)

theorem Headed.extend {system : Message} {h : History} (headed : Headed system h) {turns : List Message}
    (spoken : ∀ m ∈ turns, m.isTurn = true) : Headed system (h.extend turns) := by
  induction turns generalizing h with
  | nil => exact headed
  | cons m turns ih =>
    exact ih (headed.append (spoken m (by simp))) fun t member => spoken t (by simp [member])

theorem length_extend_le {h : History} (bounded : h.length ≤ h.limit) (ms : List Message) :
    (h.extend ms).length ≤ h.limit := by
  induction ms generalizing h with
  | nil => exact bounded
  | cons m ms ih =>
    refine ih (h := h.append m) ?_
    unfold History.length
    rw [length_append]
    exact Nat.min_le_right _ _

end History

namespace Session

/-- What becomes of a conversation that is handed from one conversion to the next. -/
inductive Carries (s : Session) (begun : History) : History → Prop where
  | begin : Carries s begun begun
  | convert {between after : History} {prompt chunk context code : Text} {line : Line} :
    Carries s begun between →
    ((s.convert prompt chunk context between).run.run line).1 = .ok (code,after) →
    Carries s begun after

variable {s : Session} {begun between after : History}

theorem Carries.trans (first : s.Carries begun between) (later : s.Carries between after) :
    s.Carries begun after := by
  induction later with
  | begin => exact first
  | convert _ converted ih => exact ih.convert converted

/-- A conversion adds a question and its answer, or nothing at all. -/
theorem extend_of_convert {prompt chunk context code : Text} {line : Line}
    (converted : ((s.convert prompt chunk context between).run.run line).1 = .ok (code,after)) :
    ∃ turns, (∀ m ∈ turns, Message.isTurn m = true) ∧ after = between.extend turns := by
  cases filled : Text.blank chunk with
  | true =>
    unfold convert at converted
    rw [if_pos filled] at converted
    cases converted
    exact ⟨[],by simp,rfl⟩
  | false =>
    rw [s.run_convert_filled prompt context between line filled] at converted
    generalize (s.attempts between.messages _ _ _ _).run.run line = done at converted
    obtain ⟨result,_⟩ := done
    cases result with
    | error e => cases converted
    | ok whole =>
      cases converted
      exact ⟨[_,_],by simp [Message.isTurn],rfl⟩

theorem Carries.extend (carries : s.Carries begun after) :
    ∃ turns, (∀ m ∈ turns, Message.isTurn m = true) ∧ after = begun.extend turns := by
  induction carries with
  | begin => exact ⟨[],by simp,rfl⟩
  | convert _ converted ih =>
    obtain ⟨turns,spoken,rfl⟩ := ih
    obtain ⟨more,later,rfl⟩ := extend_of_convert converted
    refine ⟨turns ++ more,fun m member => ?_,(History.extend_append begun turns more).symm⟩
    rcases List.mem_append.1 member with early | late
    · exact spoken m early
    · exact later m late

end Session

namespace Converter
open Steps
variable (c : Converter)

theorem carries_convertText (prompt text context : Text) (history : History) :
    Obeys (c.convertText prompt text context history) (fun r => c.session.Carries history r.2.1)
      fun _ => True := by
  have talked : Obeys (Run.observe (Run.talk (c.session.convert prompt text context history)))
      (fun r => ∀ code after, r = .ok (code,after) → c.session.Carries history after) fun _ => True := by
    intro w
    rw [Run.run_observe,Run.run_talk]
    exact fun code after converted => .convert .begin (ok_of_mapError converted)
  unfold convertText
  refine talked.bind fun r told => ?_
  split
  · exact .pure (told _ _ rfl)
  · exact .pure .begin
  · exact .throw trivial

theorem carries_convertBodies (context : Text) (bodies : List Text) (history : History) :
    Obeys (c.convertBodies context bodies history) (fun r => c.session.Carries history r.2.1)
      fun _ => True := by
  induction bodies generalizing history with
  | nil => exact .pure .begin
  | cons body rest ih =>
    unfold convertBodies
    refine (Obeys.any _).bind fun _ _ => ?_
    refine (c.carries_convertText _ _ _ _).bind fun _ first => ?_
    exact (ih _).bind fun _ later => .pure (first.trans later)

theorem carries_convertChunk (chunk : Chunk) (context : Text) (history : History) :
    Obeys (c.convertChunk chunk context history) (fun r => c.session.Carries history r.2.1)
      fun _ => True := by
  unfold convertChunk
  split
  · unfold convertOutline
    refine (c.carries_convertText _ _ _ _).bind fun _ first => ?_
    exact (c.carries_convertBodies _ _ _).bind fun _ later => .pure (first.trans later)
  · exact c.carries_convertText _ _ _ _

/-- The chunks of a file hand the conversation on. -/
theorem carries_convertChunks (source context : Text) (total : Nat) (chunks : List Chunk)
    (history : History) : Obeys (c.convertChunks source context total chunks history)
      (fun r => c.session.Carries history r.2.2) fun _ => True := by
  induction chunks generalizing history with
  | nil => exact .pure .begin
  | cons chunk rest ih =>
    unfold convertChunks
    refine (Obeys.any _).bind fun _ _ => ?_
    refine (c.carries_convertChunk _ _ _).bind fun _ first => ?_
    refine (Obeys.any _).bind fun _ _ => ?_
    exact (ih _).bind fun _ later => .pure (first.trans later)

end Converter

namespace Repairer
open Steps
variable (r : Repairer)

/-- The conversation of a repair, if it has one, is handed on. -/
def Carried (s t : RepairState) : Prop :=
  ∀ history, s.history = some history →
    ∃ after, t.history = some after ∧ r.session.Carries history after

variable {r} {s t u : RepairState}

theorem Carried.of_eq (same : t.history = s.history) : r.Carried s t :=
  fun history held => ⟨history,same.trans held,.begin⟩

theorem Carried.trans (first : r.Carried s t) (later : r.Carried t u) : r.Carried s u := by
  intro history held
  obtain ⟨between,kept,begun⟩ := first history held
  obtain ⟨after,ends,further⟩ := later between kept
  exact ⟨after,ends,begun.trans further⟩

variable (r)

theorem carried_requestFix (lines : List Text) (place : Nat) (issue : Issue) :
    Relates r.Carried (r.requestFix lines place issue) := by
  intro s
  rw [run_requestFix]
  split
  · rename_i code after line answered
    intro history held
    rw [held] at answered ⊢
    exact ⟨after,rfl,.convert .begin (congrArg Prod.fst answered)⟩
  · exact .of_eq rfl
  · exact .of_eq rfl

theorem carried_fix (p : Patch) (issue : Issue) : Relates r.Carried (r.fix p issue) := by
  unfold fix
  split
  · exact fun s => .of_eq rfl
  · have counted : Relates r.Carried (modify fun s => { s with
        report := { s.report with attempts := s.report.attempts + 1 } } : Repairing PUnit) :=
      fun s => .of_eq rfl
    refine counted.bind .trans fun _ => (r.carried_requestFix _ _ _).bind .trans fun found => ?_
    split
    · exact fun s => .of_eq rfl
    · split
      · exact fun s => .of_eq rfl
      · intro s
        rw [run_map]
        exact .of_eq rfl

theorem carried_pass (issues : List Issue) (p : Patch) : Relates r.Carried (r.pass issues p) := by
  induction issues generalizing p with
  | nil => exact fun s => .of_eq rfl
  | cons issue rest ih =>
    unfold pass
    refine (r.carried_fix p issue).bind .trans fun found => ?_
    split
    · exact ih _
    · split
      · exact fun s => .of_eq rfl
      · exact ih _

theorem carried_passes (left depth : Nat) (code : Text) (issues : List Issue) :
    Relates r.Carried (r.passes left depth code issues) := by
  have started (depth : Nat) : Relates r.Carried (modify fun s => { s with
      report := { s.report with depth := depth } } : Repairing PUnit) := fun s => .of_eq rfl
  have done (code : Text) : Relates r.Carried (finished code) := fun s => .of_eq rfl
  have gaveUp : Relates r.Carried exhausted := fun s => .of_eq rfl
  induction left generalizing depth code issues with
  | zero =>
    unfold passes
    refine (started depth).bind .trans fun _ => ?_
    split
    · exact done _
    · exact gaveUp
  | succ left ih =>
    unfold passes
    refine (started depth).bind .trans fun _ => ?_
    split
    · exact done _
    · refine (r.carried_pass _ _).bind .trans fun p => ?_
      split
      · exact gaveUp
      · split
        · exact done _
        · exact ih _ _ _

end Repairer

namespace History
open Message
variable {system : Message} {begun after : History}

/-- The message that opened a conversation still does, and the bound is kept. -/
structure Stays (system : Message) (begun after : History) : Prop where
  headed : Headed system after
  limit : after.limit = begun.limit
  bounded : begun.length ≤ begun.limit → after.length ≤ after.limit

theorem Headed.stays (headed : Headed system begun) {s : Session} (carries : s.Carries begun after) :
    Stays system begun after := by
  obtain ⟨turns,spoken,rfl⟩ := carries.extend
  have limit := limit_extend begun turns
  exact ⟨headed.extend spoken,limit,fun bounded => limit.symm ▸ length_extend_le bounded turns⟩

theorem headed_newHistory (s : Session) : Headed ⟨.system,s.systemPrompt⟩ s.newHistory := by
  have room : 1 ≤ s.newHistory.limit := Nat.le_max_right _ _
  refine ⟨rfl,⟨[],?_,by simp⟩,room⟩
  change evictMany (0 + 1 - s.newHistory.limit) _ = _
  rw [Nat.sub_eq_zero_of_le room]
  rfl

/-- A history that takes in one message after the other keeps the newest turns, and the newest messages of
the system where there is no room for a turn. In two parts the messages come to the same. Through every
course of conversions, those of a file and those of a repair included, the message of the system that opened
the conversation stays the first one, and the bound is kept. -/
theorem keeps_newest (limit : Nat) :
    (∀ ms : List Message,
      let turns := ms.countP isTurn
      let silent := ms.countP fun m => !m.isTurn
      let excess := turns + silent - limit
      let kept := (empty limit).extend ms
      (turns + silent ≤ limit → kept.messages = ms) ∧
      (limit < turns + silent → kept.messages =
        let spared := without isTurn (min excess turns) ms
        if turns < excess then without (fun m => !m.isTurn) (silent - limit) spared else spared) ∧
      kept.length = min (turns + silent) limit) ∧
    (∀ (h : History) (ms ns : List Message), (h.extend ms).extend ns = h.extend (ms ++ ns)) ∧
    (∀ s : Session, Headed ⟨.system,s.systemPrompt⟩ s.newHistory) ∧
    ∀ (system : Message) (begun : History), Headed system begun →
      (∀ (s : Session) (after : History), s.Carries begun after → Stays system begun after) ∧
      (∀ (c : Converter) (source context : Text) (total : Nat) (chunks : List Chunk),
        Steps.Obeys (c.convertChunks source context total chunks begun) (fun r => Stays system begun r.2.2)
          fun _ => True) ∧
      ∀ (r : Repairer) (code : Text) (issues : List Issue) (line : Line),
        ∃ after, (r.repair code issues (some begun) line).2.history = some after ∧
          Stays system begun after := by
  refine ⟨fun ms => ?_,fun h ms ns => (extend_append h ms ns).symm,headed_newHistory,
    fun system begun headed => ⟨fun s after carries => headed.stays carries,?_,?_⟩⟩
  · intro turns silent excess kept
    have all : ms.length = turns + silent := length_eq_turns_add ms
    have messages : kept.messages = evictMany (ms.length - limit) ms := messages_extend_empty limit ms
    refine ⟨fun fits => ?_,fun beyond => ?_,?_⟩
    · rw [messages,all,Nat.sub_eq_zero_of_le fits]
      rfl
    · dsimp only
      rw [messages,all,evictMany_eq,without_min]
      split
      · rename_i outrun
        have older : turns + silent - limit - ms.countP isTurn = silent - limit := by
          change turns + silent - limit - turns = _
          change turns < turns + silent - limit at outrun
          omega
        rw [older]
      · rename_i within
        rw [Nat.sub_eq_zero_of_le (Nat.le_of_not_lt within),without_zero]
    · change kept.messages.length = _
      rw [messages,length_evictMany,all]
      omega
  · intro c source context total chunks
    exact (c.carries_convertChunks source context total chunks begun).mono
      (fun r carries => headed.stays carries) fun _ h => h
  · intro r code issues line
    obtain ⟨after,held,carries⟩ := r.carried_passes r.maxDepth 0 code issues
      { line := line, history := some begun, best := (code,issues) } begun rfl
    exact ⟨after,held,headed.stays carries⟩

/-- Two messages of the system take the room of the turns that came in between, and of an older one. In a
conversation with room for two messages an answer takes the place of its question. -/
theorem keeps_newest_two :
    let said (role : Role) (content : String) : Message := ⟨role,content.toList⟩
    let s : Session := {
      service := Session.inOrder [.text "<code>a</code>"]
      language := {
        target := "plain", inputExtension := ".src", outputExtension := ".out", prompt := "Translate." }
      run := { maxHistory := 2 } }
    ((empty 2).extend [said .system "a",said .user "b",said .system "c",said .assistant "d",
      said .system "e"]).messages = [said .system "c",said .system "e"] ∧
    ∃ code after, ((s.convert "Translate." "code" [] s.newHistory).run.run {}).1 = .ok (code,after) ∧
      after.messages = [⟨.system,s.systemPrompt⟩,said .assistant "<code>a</code>"] ∧
      Stays ⟨.system,s.systemPrompt⟩ s.newHistory after := by
  intro said s
  let after := (s.newHistory.append ⟨.user,"Translate.\n\nCode to translate:\ncode".toList⟩).append
    (said .assistant "<code>a</code>")
  have converted : ((s.convert "Translate." "code" [] s.newHistory).run.run {}).1 =
      .ok ("a".toList,after) := by decide +kernel
  obtain ⟨newest,_,opened,course⟩ := keeps_newest 2
  exact ⟨(newest _).2.1 (by decide),_,after,converted,by decide +kernel,
    (course _ _ (opened s)).1 s after (.convert .begin converted)⟩

end History

end Recast
