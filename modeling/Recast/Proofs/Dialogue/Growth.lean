import Recast.Proofs.Dialogue.Exchange
import Recast.Proofs.Source.Truncation

/-! What continuations gain. The code that is quoted ends behind its last closed block, so what an answer adds
behind it is given up again unless it moves that place. Of a service that goes on with one document the quotes
grow exactly as long as its answers do so, and then the whole document comes together. -/
namespace Recast

namespace Symbols
open Text

/-- Behind a quoted code, the fragment moves the place up to which code is kept: no block is closed at all, or
one is closed inside the fragment, or it ends the line of the last one, which has only blanks behind it. -/
def Advances (symbols : Symbols) (quoted fragment : Text) : Prop :=
  let code := quoted ++ fragment
  (∀ n, ¬ symbols.ClosesAt code n) ∨ (∃ n, symbols.ClosesAt code n ∧ quoted.length < n) ∨
    ∃ n gap rest, IsGreatest {n | symbols.ClosesAt code n} n ∧ code.drop n = gap ++ '\n' :: rest ∧
      blank gap = true ∧ '\n' ∉ gap ∧ quoted.length ≤ n + gap.length

theorem blankEnd_line {gap : Text} (dark : blank gap = true) (line : '\n' ∉ gap) (rest : Text) :
    blankEnd (gap ++ '\n' :: rest) = gap ++ ['\n'] := by
  have passed : ∀ c ∈ gap, decide (c ≠ '\n') = true := fun c member => by
    simpa using fun feed : c = '\n' => line (feed ▸ member)
  have first : (gap ++ '\n' :: rest).takeWhile (· ≠ '\n') = gap := by
    rw [List.takeWhile_append_of_pos passed]
    simp
  unfold blankEnd
  rw [first,if_pos dark]
  simp [List.take_append]

theorem length_pos_of_filled {rest : Text} (filled : blank rest = false) : 0 < rest.length := by
  cases rest with
  | nil => cases filled
  | cons c rest => exact Nat.succ_pos _

/-- Of a text that is not blank nothing is kept, or the blanks on its first line. -/
theorem blankEnd_of_filled {rest : Text} (filled : blank rest = false) : blankEnd rest = [] ∨
    ∃ gap more, rest = gap ++ '\n' :: more ∧ blank gap = true ∧ '\n' ∉ gap := by
  unfold blankEnd
  split
  · rename_i dark
    right
    have whole := List.takeWhile_append_dropWhile (p := (· ≠ '\n')) (l := rest)
    cases behind : rest.dropWhile (· ≠ '\n') with
    | nil =>
      rw [behind,List.append_nil] at whole
      rw [whole,filled] at dark
      cases dark
    | cons c more =>
      have stop := List.head?_dropWhile_not (· ≠ '\n') rest
      rw [behind] at stop whole
      have feed : c = '\n' := by simpa using stop
      subst feed
      exact ⟨_,more,whole.symm,dark,notMem_takeWhile_feed rest⟩
  · exact .inl rfl

/-- The code that is quoted next is longer exactly if the fragment advances. -/
theorem length_lt_truncate_iff (symbols : Symbols) (quoted : Text) {fragment : Text}
    (filled : blank fragment = false) :
    quoted.length < (symbols.truncate (quoted ++ fragment)).length ↔ symbols.Advances quoted fragment := by
  have some_ := length_pos_of_filled filled
  cases found : symbols.lastClose? 0 0 none 0 (quoted ++ fragment) with
  | none =>
    have none_ := lastClose?_eq_none_iff.1 found
    rw [truncate_of_none none_,List.length_append]
    exact ⟨fun _ => .inl none_,fun _ => by omega⟩
  | some n =>
    have last := lastClose?_eq_some_iff.1 found
    rw [truncate_of_greatest last,List.length_append,List.length_take_of_le last.1.le]
    constructor
    · intro longer
      by_cases inside : quoted.length < n
      · exact .inr (.inl ⟨n,last.1,inside⟩)
      have behind : blank ((quoted ++ fragment).drop n) = false := by
        rw [List.drop_append_of_le_length (by omega)]
        unfold blank at filled ⊢
        rw [List.all_append,filled,Bool.and_false]
      rcases blankEnd_of_filled behind with nothing | ⟨gap,more,shape,dark,line⟩
      · rw [nothing,List.length_nil] at longer
        omega
      · rw [shape,blankEnd_line dark line,List.length_append,List.length_singleton] at longer
        exact .inr (.inr ⟨n,gap,more,last,shape,dark,line,by omega⟩)
    · rintro (none_ | ⟨m,closes,inside⟩ | ⟨m,gap,rest,greatest,shape,dark,line,reach⟩)
      · exact absurd last.1 (none_ n)
      · have later := last.2 closes
        omega
      · cases greatest.unique last
        rw [shape,blankEnd_line dark line,List.length_append,List.length_singleton]
        omega

theorem truncate_ne_nil (symbols : Symbols) {code : Text} (filled : code ≠ []) :
    symbols.truncate code ≠ [] := by
  cases found : symbols.lastClose? 0 0 none 0 code with
  | none => rwa [truncate_of_none (lastClose?_eq_none_iff.1 found)]
  | some n =>
    have last := lastClose?_eq_some_iff.1 found
    obtain ⟨before,shape,_⟩ := last.1.shape
    rw [truncate_of_greatest last,shape]
    simp [symbols.closing_ne_nil]

end Symbols

/-- The service answers each request with the reply that stands at its place. -/
theorem Service.Told.answered {s : Session} {base : List Message} {asked : Text} {past : List Request}
    {given part more : List Reply} {reply : Reply}
    (told : s.service.Told past (s.requestsAfter base asked given more) more)
    (begins : part ++ [reply] <+: more) : ∃ earlier,
      (s.service.answer earlier (s.nextRequest base asked (given ++ part))).outcome = .reply reply := by
  induction part generalizing given past more with
  | nil =>
    obtain ⟨rest,rfl⟩ := begins
    cases told with
    | cons outcome _ => exact ⟨past,by simpa using outcome⟩
  | cons first part ih =>
    obtain ⟨rest,rfl⟩ := begins
    cases told with
    | cons _ later =>
      obtain ⟨earlier,outcome⟩ := ih later ⟨rest,rfl⟩
      exact ⟨earlier,by simpa using outcome⟩

namespace Session
variable (s : Session) (base : List Message) (asked d : Text)

/-- The service knows one document and is honest about it: an attempt begins with a part of it, and where a
beginning of it is quoted it goes on with a part of the rest that is not blank, or with all of the rest and
the closing tag. -/
structure Faithful : Prop where
  replies : s.service.Replies
  first : ∀ {past reply}, (s.service.answer past ⟨s.maxTokens,opened base asked⟩).outcome = .reply reply →
    reply.hasCode s.language.tags = true ∧ reply.code s.language.tags <+: d ∧
      (reply.isComplete s.language.tags = true → reply.code s.language.tags = d)
  next : ∀ {past p reply}, p <+: d →
    (s.service.answer past ⟨s.maxTokens,opened base asked ++ s.followUp p⟩).outcome = .reply reply →
    reply.continuation s.language.tags = (d.drop p.length,true) ∨
      ∃ fragment, reply.continuation s.language.tags = (fragment,false) ∧ fragment <+: d.drop p.length ∧
        Text.blank fragment = false

/-- Between any two requests of an attempt that quote code, the answer to the first one advances. -/
def Advancing (replies : List Reply) : Prop :=
  ∀ before reply, before ≠ [] → before ++ [reply] <+: replies → before ++ [reply] ≠ replies →
    s.language.symbols.Advances (s.quoted before) (reply.continuation s.language.tags).1

variable {s base asked d} {past : List Request} {replies before : List Reply} {reply : Reply}

theorem Faithful.opening (faithful : s.Faithful base asked d)
    (told : s.service.Told past (s.requests base asked replies) replies) (begins : [reply] <+: replies) :
    (s.reached [reply]).1 <+: d ∧
      (s.reached [reply] = (d,.complete) ∨ (s.reached [reply]).2 = .goesOn) := by
  obtain ⟨earlier,outcome⟩ := told.answered (show [] ++ [reply] <+: replies from begins)
  have request : s.nextRequest base asked ([] ++ []) = ⟨s.maxTokens,opened base asked⟩ := by
    simp [nextRequest]
  rw [request] at outcome
  obtain ⟨coded,part,whole⟩ := faithful.first outcome
  refine ⟨part,?_⟩
  change s.opening reply = _ ∨ (s.opening reply).2 = _
  unfold Session.opening
  simp only [coded]
  by_cases complete : reply.isComplete s.language.tags = true
  · left
    simp [complete,whole complete]
  · right
    simp [complete]

/-- One round: the answer makes the document whole, or adds a part of it to what was quoted. -/
theorem Faithful.round (faithful : s.Faithful base asked d)
    (told : s.service.Told past (s.requests base asked replies) replies) (begun : before ≠ [])
    (begins : before ++ [reply] <+: replies) (known : (s.reached before).1 <+: d) :
    s.reached (before ++ [reply]) = (d,.complete) ∨ ∃ fragment,
      (reply.continuation s.language.tags).1 = fragment ∧ Text.blank fragment = false ∧
        s.reached (before ++ [reply]) = (s.quoted before ++ fragment,.goesOn) ∧
        s.quoted before ++ fragment <+: d := by
  obtain ⟨earlier,outcome⟩ := told.answered begins
  rw [List.nil_append,nextRequest_of_ne_nil begun] at outcome
  have kept : s.quoted before <+: d := (s.language.symbols.truncate_prefix _).trans known
  have rest := faithful.next kept outcome
  rw [reached_concat begun]
  unfold continued
  rw [← Session.quoted]
  generalize s.quoted before = p at *
  obtain ⟨behind,rfl⟩ := kept
  rw [List.drop_left] at rest
  rcases rest with whole | ⟨fragment,part,begins,filled⟩
  · left
    simp [whole]
  · right
    refine ⟨fragment,by rw [part],filled,?_,(List.prefix_append_right_inj p).2 begins⟩
    simp [part,filled]

theorem Faithful.reached (faithful : s.Faithful base asked d)
    (told : s.service.Told past (s.requests base asked replies) replies) {part : List Reply}
    (begins : part <+: replies) : (s.reached part).1 <+: d ∧
      (s.reached part = (d,.complete) ∨ (s.reached part).2 = .goesOn) := by
  induction part using List.reverseRecOn with
  | nil => exact ⟨List.nil_prefix,.inr rfl⟩
  | append_singleton before reply ih =>
    by_cases begun : before = []
    · subst begun
      exact faithful.opening told begins
    · obtain ⟨known,_⟩ := ih ((List.prefix_append before [reply]).trans begins)
      rcases faithful.round told begun begins known with whole | ⟨fragment,_,_,same,longer⟩
      · rw [whole]
        exact ⟨List.prefix_refl d,.inl rfl⟩
      · rw [same]
        exact ⟨longer,.inr rfl⟩

theorem Faithful.quoted (faithful : s.Faithful base asked d)
    (told : s.service.Told past (s.requests base asked replies) replies) {part : List Reply}
    (begins : part <+: replies) : s.quoted part <+: d :=
  (s.language.symbols.truncate_prefix _).trans (faithful.reached told begins).1

/-- What is quoted after a round is longer than before exactly if the answer advances. -/
theorem Faithful.longer_iff (faithful : s.Faithful base asked d)
    (told : s.service.Told past (s.requests base asked replies) replies) (attempt : s.Attempt replies)
    (begun : before ≠ []) (begins : before ++ [reply] <+: replies) (proper : before ++ [reply] ≠ replies) :
    (s.quoted before).length < (s.quoted (before ++ [reply])).length ↔
      s.language.symbols.Advances (s.quoted before) (reply.continuation s.language.tags).1 := by
  have open_ := attempt.goesOn _ begins proper
  have known := (faithful.reached told ((List.prefix_append before [reply]).trans begins)).1
  rcases faithful.round told begun begins known with whole | ⟨fragment,same,filled,next,_⟩
  · rw [whole] at open_
    cases open_
  · rw [same,← Symbols.length_lt_truncate_iff _ _ filled]
    unfold Session.quoted
    rw [next]
    rfl

/-- As long as the answers advance, each round adds to the length of what is quoted. -/
theorem Faithful.grown (faithful : s.Faithful base asked d)
    (told : s.service.Told past (s.requests base asked replies) replies) (attempt : s.Attempt replies)
    (advancing : s.Advancing replies) {earlier more : List Reply} (begun : earlier ≠ [])
    (begins : earlier ++ more <+: replies) (proper : earlier ++ more ≠ replies) :
    (s.quoted earlier).length + more.length ≤ (s.quoted (earlier ++ more)).length := by
  induction more using List.reverseRecOn with
  | nil => simp
  | append_singleton more reply ih =>
    rw [← List.append_assoc] at begins proper ⊢
    have shorter := (List.prefix_append (earlier ++ more) [reply]).trans begins
    have inside : earlier ++ more ≠ replies := by
      rintro rfl
      have size := begins.length_le
      rw [List.length_append,List.length_singleton] at size
      omega
    have step := (faithful.longer_iff told attempt (by simp [begun]) begins proper).2
      (advancing _ reply (by simp [begun]) begins proper)
    have before := ih shorter inside
    rw [List.length_append,List.length_singleton]
    omega

/-- The same for any two quotes; both of them begin the document. -/
theorem Faithful.increasing (faithful : s.Faithful base asked d)
    (told : s.service.Told past (s.requests base asked replies) replies) (attempt : s.Attempt replies)
    (advancing : s.Advancing replies) {earlier later : List Reply} (begun : earlier ≠ [])
    (begins : earlier <+: later) (further : earlier ≠ later) (inside : later <+: replies)
    (proper : later ≠ replies) :
    s.quoted earlier <+: s.quoted later ∧ (s.quoted earlier).length < (s.quoted later).length := by
  obtain ⟨more,rfl⟩ := begins
  have some_ : 0 < more.length := by
    apply List.length_pos_iff.2
    rintro rfl
    simp at further
  have grown := faithful.grown told attempt advancing begun inside proper
  have first := faithful.quoted told ((List.prefix_append earlier more).trans inside)
  exact ⟨List.prefix_of_prefix_length_le first (faithful.quoted told inside) (by omega),by omega⟩

/-- An attempt that may go on as often as the document is long gets to its end. -/
theorem Faithful.completes (faithful : s.Faithful base asked d)
    (told : s.service.Told past (s.requests base asked replies) replies) (attempt : s.Attempt replies)
    (advancing : s.Advancing replies)
    (room : d.length < s.run.maxContinuations ∨
      d.length ≤ s.run.maxContinuations ∧ (s.reached (replies.take 1)).1 ≠ []) :
    s.reached replies = (d,.complete) := by
  rcases (faithful.reached told (List.prefix_refl replies)).2 with whole | open_
  · exact whole
  have full : replies.length = s.run.maxContinuations + 1 :=
    attempt.ends.resolve_left fun ended => ended open_
  rcases List.eq_nil_or_concat replies with rfl | ⟨before,last,rfl⟩
  · exact absurd rfl attempt.ne_nil
  rw [List.concat_eq_append] at *
  rw [List.length_append,List.length_singleton] at full
  have begins := List.prefix_append before [last]
  cases before with
  | nil =>
    -- There was one reply only, so nothing may go on and the document is empty.
    have known := (faithful.reached told (List.prefix_refl _)).1
    have size := known.length_le
    rcases room with less | ⟨less,filled⟩
    · simp only [List.length_nil] at full
      omega
    · have some_ := List.length_pos_iff.2 filled
      simp only [List.nil_append,List.take_succ_cons,List.take_nil,List.length_nil] at full some_ size
      omega
  | cons first more =>
    have known := (faithful.reached told begins).1
    rcases faithful.round told (by simp) (List.prefix_refl _) known with whole | ⟨fragment,_,filled,_,longer⟩
    · exact whole
    have one : [first] ≠ [] := List.cons_ne_nil _ _
    have grown := faithful.grown told attempt advancing one begins (by simp)
    have size := longer.length_le
    have some_ := Symbols.length_pos_of_filled filled
    rw [List.singleton_append] at grown
    rw [List.length_append] at size
    rw [List.length_cons] at full
    rcases room with less | ⟨less,begun⟩
    · omega
    · have start : s.quoted [first] ≠ [] := s.language.symbols.truncate_ne_nil begun
      have some_ := List.length_pos_iff.2 start
      omega

/-- Answers that advance wherever they are cut off make every attempt advance. -/
theorem Faithful.advancing (faithful : s.Faithful base asked d)
    (told : s.service.Told past (s.requests base asked replies) replies) (attempt : s.Attempt replies)
    (steps : ∀ earlier p reply, p <+: d → s.language.symbols.truncate p = p →
      (s.service.answer earlier ⟨s.maxTokens,opened base asked ++ s.followUp p⟩).outcome = .reply reply →
      (reply.continuation s.language.tags).2 = false →
      s.language.symbols.Advances p (reply.continuation s.language.tags).1) : s.Advancing replies := by
  intro before reply begun begins proper
  have shorter := (List.prefix_append before [reply]).trans begins
  obtain ⟨earlier,outcome⟩ := told.answered begins
  rw [List.nil_append,nextRequest_of_ne_nil begun] at outcome
  apply steps earlier _ reply (faithful.quoted told shorter) (Symbols.truncate_truncate _ _) outcome
  have open_ := attempt.goesOn _ begins proper
  rw [reached_concat begun] at open_
  unfold continued at open_
  cases complete : (reply.continuation s.language.tags).2 with
  | false => rfl
  | true => simp [complete] at open_

/-- Of a service that is honest about a document an attempt quotes more code after a round exactly if the answer
advances. As long as all answers do so, each request quotes a longer beginning of the document than those before,
and with as many continuations as the document is long the attempt ends with all of it; an attempt that begins
with no code needs one more. -/
theorem exchange_progress (faithful : s.Faithful base asked d) (line : Line) :
    ∃ replies, s.Exchanged base asked [] line (s.exchange base asked) replies ∧
      (∀ before reply, before ≠ [] → before ++ [reply] <+: replies → before ++ [reply] ≠ replies →
        ((s.quoted before).length < (s.quoted (before ++ [reply])).length ↔
          s.language.symbols.Advances (s.quoted before) (reply.continuation s.language.tags).1)) ∧
      (s.Advancing replies →
        (∀ earlier later, earlier ≠ [] → earlier <+: later → earlier ≠ later → later <+: replies →
          later ≠ replies → s.quoted earlier <+: s.quoted later ∧
            (s.quoted earlier).length < (s.quoted later).length) ∧
        (d.length < s.run.maxContinuations ∨
            d.length ≤ s.run.maxContinuations ∧ (s.reached (replies.take 1)).1 ≠ [] →
          ((s.exchange base asked).run.run line).1 = .ok (d,true))) := by
  obtain ⟨replies,exchanged⟩ := exchanged_exchange faithful.replies base asked line
  have told := exchanged.told
  have attempt := exchanged.attempt
  rw [List.nil_append] at attempt
  refine ⟨replies,exchanged,fun before reply => faithful.longer_iff told attempt,fun advancing =>
    ⟨fun earlier later => faithful.increasing told attempt advancing,fun room => ?_⟩⟩
  have whole := faithful.completes told attempt advancing room
  rw [exchanged.result,List.nil_append,whole]
  rfl

/-- A service that begins with so many characters of a document and goes on with so many at a time. -/
def inPieces (start size : Nat) (d : Text) : Service where
  answer := fun _ request =>
    match request.messages.reverse with
    | _ :: ⟨.assistant,quoted⟩ :: _ =>
      let rest := d.drop (quoted.length - 6)
      { outcome := .reply (.text (if rest.isEmpty then "</code>" else rest.take size)) }
    | _ => { outcome := .reply (.text ("<code>" ++ d.take start)) }
  reachable := .reply (.text "yes")

def piecemeal (start size most : Nat) (d : Text) : Session where
  service := inPieces start size d
  language := {
    target := "plain", inputExtension := ".src", outputExtension := ".out", prompt := "Translate." }
  run := { maxContinuations := most }

theorem answer_inPieces (start size most : Nat) (d p : Text) (past : List Request) :
    ((piecemeal start size most d).service.answer past
      ⟨(piecemeal start size most d).maxTokens,opened [] asked ++
        (piecemeal start size most d).followUp p⟩).outcome =
      .reply (.text (if (d.drop p.length).isEmpty then "</code>" else (d.drop p.length).take size)) := by
  have size_ : ("<code>" ++ p : Text).length - 6 = p.length := by simp
  rw [← size_]
  rfl

theorem continuation_unmarked {p : Text} (bare : Unmarked p) : Tags.standard.continuation p = (p,false) := by
  unfold Tags.continuation
  rw [hasCode_of_lacks bare.unopened,cut?_closing_none bare.unclosed]
  simp only [bare.decode]
  rfl

theorem faithful_piecemeal (start most : Nat) {size : Nat} (some_ : 0 < size) (asked : Text) {d : Text}
    (unmarked : Unmarked d) (filled : d.any Text.isBlank = false) :
    (piecemeal start size most d).Faithful [] asked d where
  replies := by
    intro past request
    change ∃ reply, (match request.messages.reverse with
      | _ :: ⟨.assistant,quoted⟩ :: _ => _
      | _ => _ : Answer).outcome = _
    split
    · exact ⟨_,rfl⟩
    · exact ⟨_,rfl⟩
  first := by
    intro past reply outcome
    cases outcome
    have begins := List.take_prefix start d
    have bare := unmarked.of_within begins.isInfix
    have answer : FirstAnswer d ("<code>" ++ d.take start) :=
      .part (show Text.Lacks "<code>" [] by decide) begins
    exact ⟨hasCode_opening _,answer.read unmarked (hasCode_opening _)⟩
  next := by
    intro past p reply begins outcome
    rw [answer_inPieces] at outcome
    cases outcome
    obtain ⟨rest,rfl⟩ := begins
    rw [List.drop_left]
    cases rest with
    | nil => exact .inl rfl
    | cons c rest =>
      have part : (c :: rest).take size <+: c :: rest := List.take_prefix _ _
      have bare := (unmarked.of_within (List.suffix_append p _).isInfix).of_within part.isInfix
      refine .inr ⟨(c :: rest).take size,continuation_unmarked bare,part,?_⟩
      obtain ⟨n,rfl⟩ := Nat.exists_eq_succ_of_ne_zero (Nat.ne_of_gt some_)
      have dark : Text.isBlank c = false := by simpa using List.any_eq_false.1 filled c (by simp)
      simp [Text.blank,dark]

/-- Every answer but the last one closes a block. -/
theorem exchange_progress_blocks :
    let d : Text := "{ab}x{c}y{d}z{e}"
    let s := piecemeal 5 5 20 d
    s.Faithful [] "Go on." d ∧ ((s.exchange [] "Go on.").run.run {}).2.calls.length = 5 ∧
      ((s.exchange [] "Go on.").run.run {}).1 = .ok (d,true) := by
  intro d s
  have unmarked : Unmarked d := by decide +kernel
  have faithful : s.Faithful [] "Go on." d :=
    faithful_piecemeal 5 20 (by decide) _ unmarked (by decide +kernel)
  have grows : ∀ i ≤ d.length, s.language.symbols.truncate (d.take i) = d.take i →
      (d.drop i).isEmpty = false → Text.blank ((d.drop i).take 5) = false ∧
        (d.take i).length < (s.language.symbols.truncate (d.take i ++ (d.drop i).take 5)).length := by
    decide +kernel
  obtain ⟨replies,exchanged,_,ends⟩ := exchange_progress faithful {}
  refine ⟨faithful,by decide +kernel,(ends ?_).2 (.inl (by decide +kernel))⟩
  apply faithful.advancing exchanged.told exchanged.attempt
  intro earlier p reply begins stands outcome part
  rw [answer_inPieces] at outcome
  cases outcome
  have size := begins.length_le
  have same := List.prefix_iff_eq_take.1 begins
  have unmarkedRest := unmarked.of_within (List.drop_suffix p.length d).isInfix
  have told := grows p.length size (by rwa [← same])
  rw [← same] at told
  cases empty : (d.drop p.length).isEmpty with
  | true =>
    rw [empty] at part
    cases part
  | false =>
    obtain ⟨filled,longer⟩ := told empty
    have bare := unmarkedRest.of_within (List.take_prefix 5 _).isInfix
    simp only [Bool.false_eq_true,if_false]
    change s.language.symbols.Advances p (Tags.standard.continuation _).1
    rw [continuation_unmarked bare]
    exact (Symbols.length_lt_truncate_iff _ _ filled).1 longer

/-- An answer that closes no block is given up, so the next request quotes the same code, and so do all others;
and a document that begins with an empty answer is whole only after the last continuation. -/
theorem exchange_stalls :
    (let d : Text := "{}ab"
     let s := piecemeal 3 1 4 d
     let calls := ((s.exchange [] "Go on.").run.run {}).2.calls
     s.Faithful [] "Go on." d ∧ d.length ≤ s.run.maxContinuations ∧
        calls.drop 1 = List.replicate 4 ⟨s.maxTokens,opened [] "Go on." ++ s.followUp "{}"⟩ ∧
        ((s.exchange [] "Go on.").run.run {}).1 = .ok ("{}a",false)) ∧
    (let s := piecemeal 0 1 1 "a"
     s.Faithful [] "Go on." "a" ∧ ("a" : Text).length ≤ s.run.maxContinuations ∧
        ((s.exchange [] "Go on.").run.run {}).1 = .ok ("a",false)) := by
  constructor
  · exact ⟨faithful_piecemeal 3 4 (by decide) _ (by decide +kernel) (by decide +kernel),by decide +kernel,
      by decide +kernel,by decide +kernel⟩
  · exact ⟨faithful_piecemeal 0 1 (by decide) _ (by decide +kernel) (by decide +kernel),by decide +kernel,
      by decide +kernel⟩

end Session

end Recast
