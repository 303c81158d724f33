import Recast.Proofs.Dialogue.Echo

/-! Documents that come in pieces. A service that is cut off goes on where the code that is quoted
to it ends; whatever is cut back before it goes on, the pieces make the document again. -/
namespace Recast
open Text

/-- A first answer about a document: no code, a part that was cut off, or all of it. -/
inductive FirstAnswer (d : Text) : Text → Prop where
  | junk {t : Text} : Lacks "<code>" t → FirstAnswer d t
  | part {before p : Text} : Lacks "<code>" before → p <+: d →
    FirstAnswer d (before ++ ("<code>" ++ p))
  | whole {before after : Text} : Lacks "<code>" before →
    FirstAnswer d (before ++ ("<code>" ++ (d ++ ("</code>" ++ after))))

/-- An answer that goes on with the rest of a document: a part of it, or all of it with the closing
tag. The opening tag may stand before it again. -/
inductive NextAnswer (rest : Text) : Text → Prop where
  | part {p : Text} : p <+: rest → NextAnswer rest p
  | partAgain {p : Text} : p <+: rest → NextAnswer rest ("<code>" ++ p)
  | last {after : Text} : Lacks "<code>" after → NextAnswer rest (rest ++ ("</code>" ++ after))
  | lastAgain {after : Text} : Lacks "<code>" after →
    NextAnswer rest ("<code>" ++ (rest ++ ("</code>" ++ after)))

section Reading

theorem cut?_opening {before : Text} (free : Lacks "<code>" before) (t : Text) :
    cut? Tags.standard.opening (before ++ ("<code>" ++ t)) = some (before,t) :=
  cut?_word (w := "<code>") rfl (by decide) free t

theorem Unmarked.unopened {p : Text} (unmarked : Unmarked p) : Lacks "<code>" p :=
  unmarked "<code>" (by simp [markup])

theorem Unmarked.unclosed {p : Text} (unmarked : Unmarked p) : Lacks "</code>" p :=
  unmarked "</code>" (by simp [markup])

theorem cut?_closing {p : Text} (unclosed : Lacks "</code>" p) (t : Text) :
    cut? Tags.standard.closing (p ++ ("</code>" ++ t)) = some (p,t) :=
  cut?_word (w := "</code>") rfl (by decide) unclosed t

theorem cut?_closing_none {p : Text} (unclosed : Lacks "</code>" p) :
    cut? Tags.standard.closing p = none :=
  cut?_eq_none_iff.2 unclosed

/-- The opening tag does not stand across the place where the closing one begins. -/
theorem lacks_opening {p after : Text} (unopened : Lacks "<code>" p) (free : Lacks "<code>" after) :
    Lacks "<code>" (p ++ ("</code>" ++ after)) := by
  have left : Lacks "<code>" (p ++ ['<']) :=
    Lacks.concat (v := "<code") (c := '>') (by decide) unopened
  have right : Lacks "<code>" ("code>" ++ after) :=
    Lacks.append_of_head (c := '<') (r := "code>") (by decide) free
  have around : Lacks "<code>" ((p ++ ['<']) ++ '/' :: ("code>" ++ after)) :=
    Lacks.append_around (c := '<') (r := "code>") (by decide) left right
  simpa using around

theorem hasCode_of_lacks {t : Text} (free : Lacks "<code>" t) : Tags.standard.hasCode t = false :=
  Bool.eq_false_iff.2 (mt occurs_eq_true_iff.1 free)

theorem hasCode_opening (t : Text) : Tags.standard.hasCode ("<code>" ++ t) = true := by
  have found := cut?_opening (show Lacks "<code>" [] by decide) t
  rw [List.nil_append] at found
  unfold Tags.hasCode occurs
  rw [found]
  rfl

/-- What a first answer brings: nothing, or a beginning of the document, which is all of it where the
answer is complete. -/
theorem FirstAnswer.read {d t : Text} (unmarked : Unmarked d) (answer : FirstAnswer d t) :
    Tags.standard.hasCode t = true → Tags.standard.code t <+: d ∧
      (Tags.standard.isComplete t = true → Tags.standard.code t = d) := by
  cases answer with
  | junk free =>
    rw [hasCode_of_lacks free]
    exact fun coded => by cases coded
  | @part before p free begins =>
    have bare := unmarked.of_within begins.isInfix
    intro _
    unfold Tags.isComplete Tags.code Tags.section? occurs
    rw [cut?_opening free]
    simp only [cut?_closing_none bare.unclosed,bare.decode]
    exact ⟨begins,fun complete => by cases complete⟩
  | @whole before after free =>
    intro _
    unfold Tags.isComplete Tags.code Tags.section? occurs
    rw [cut?_opening free]
    simp only [cut?_closing unmarked.unclosed,unmarked.decode]
    exact ⟨List.prefix_refl _,fun _ => trivial⟩

/-- What an answer that goes on brings: a beginning of the rest, which is all of it where the answer is
complete. -/
theorem NextAnswer.read {rest t : Text} (unmarked : Unmarked rest) (answer : NextAnswer rest t) :
    (Tags.standard.continuation t).1 <+: rest ∧
      ((Tags.standard.continuation t).2 = true → (Tags.standard.continuation t).1 = rest) := by
  unfold Tags.continuation
  cases answer with
  | part begins =>
    have bare := unmarked.of_within begins.isInfix
    rw [hasCode_of_lacks bare.unopened,cut?_closing_none bare.unclosed]
    simp only [bare.decode]
    exact ⟨begins,fun complete => by cases complete⟩
  | partAgain begins =>
    rw [hasCode_opening]
    exact (FirstAnswer.part (show Lacks "<code>" [] by decide) begins).read unmarked (hasCode_opening _)
  | @last after free =>
    rw [hasCode_of_lacks (lacks_opening unmarked.unopened free),cut?_closing unmarked.unclosed]
    simp only [unmarked.decode]
    exact ⟨List.prefix_refl _,fun _ => rfl⟩
  | lastAgain _ =>
    rw [hasCode_opening]
    exact (FirstAnswer.whole (show Lacks "<code>" [] by decide)).read unmarked (hasCode_opening _)

end Reading

namespace Session
variable (s : Session) (base : List Message) (request d : Text)

/-- The messages of an attempt before anything is answered. -/
def opened (asked : Text) : List Message := base ++ [⟨.user,asked⟩]

/-- A request that begins an attempt, or one that quotes a beginning of the document. -/
def Asking (r : Request) : Prop :=
  ∃ asked ∈ [request,redoRequest request],
    r = ⟨s.maxTokens,opened base asked⟩ ∨
      ∃ p, p <+: d ∧ r = ⟨s.maxTokens,opened base asked ++ s.followUp p⟩

/-- The service knows one document and answers with it, as much at a time as it likes. -/
structure Honest : Prop where
  first : ∀ past, ∀ asked ∈ [request,redoRequest request], ∃ t,
    (s.service.answer past ⟨s.maxTokens,opened base asked⟩).outcome = .reply (.text t) ∧
      FirstAnswer d t
  next : ∀ past, ∀ asked ∈ [request,redoRequest request], ∀ p, p <+: d → ∃ t,
    (s.service.answer past ⟨s.maxTokens,opened base asked ++ s.followUp p⟩).outcome =
      .reply (.text t) ∧ NextAnswer (d.drop p.length) t

section
variable {s base request d} (tags : s.language.tags = .standard) (unmarked : Unmarked d)
  (honest : s.Honest base request d)
include tags unmarked honest

/-- Each round goes on from a beginning of the document and ends with one. -/
theorem asks_goOn {asked : Text} (member : asked ∈ [request,redoRequest request]) (n : Nat) {code : Text}
    (begins : code <+: d) :
    Talk.Asks (s.Asking base request d) (s.goOn (opened base asked) n code)
      (fun r => r.1 <+: d ∧ (r.2 = true → r.1 = d)) fun _ => False := by
  induction n generalizing code with
  | zero => exact .pure ⟨begins,fun complete => by cases complete⟩
  | succ n ih =>
    -- What is quoted is cut at a statement, so the rest is counted from there and not from `code`.
    have kept := (s.language.symbols.truncate_prefix code).trans begins
    unfold goOn
    refine (Service.asks_ask ⟨asked,member,.inr ⟨_,kept,rfl⟩⟩
      fun past => honest.next past asked member _ kept).bind fun reply ⟨t,same,answer⟩ => ?_
    subst same
    obtain ⟨part,whole⟩ := answer.read (unmarked.of_within (List.drop_suffix _ d).isInfix)
    obtain ⟨rest,joined⟩ := kept
    generalize s.language.symbols.truncate code = p at *
    subst joined
    rw [List.drop_left] at part whole
    simp only [tags,Reply.continuation]
    generalize Tags.standard.continuation t = found at part whole
    obtain ⟨fragment,complete⟩ := found
    dsimp only at part whole ⊢
    have longer : p ++ fragment <+: p ++ rest := List.prefix_append_right_inj p |>.2 part
    split
    · rename_i ended
      exact .pure ⟨longer,fun _ => by rw [whole ended]⟩
    · split
      · exact .pure ⟨List.prefix_append p rest,fun complete => by cases complete⟩
      · exact ih longer

theorem asks_exchange {asked : Text} (member : asked ∈ [request,redoRequest request]) :
    Talk.Asks (s.Asking base request d) (s.exchange base asked)
      (fun r => r.1 <+: d ∧ (r.2 = true → r.1 = d)) fun _ => False := by
  unfold exchange
  refine (Service.asks_ask ⟨asked,member,.inl rfl⟩ fun past => honest.first past asked member).bind
    fun reply ⟨t,same,answer⟩ => ?_
  subst same
  have told := answer.read unmarked
  simp only [tags,Reply.hasCode,Reply.isComplete,Reply.code]
  split
  · exact .pure ⟨List.nil_prefix,fun complete => by cases complete⟩
  · rename_i coded
    obtain ⟨part,whole⟩ := told (by simpa using coded)
    split
    · rename_i complete
      exact .pure ⟨part,fun _ => whole complete⟩
    · exact asks_goOn tags unmarked honest member _ part

/-- The attempts end with the document, or with a beginning of it after the last one. -/
theorem asks_attempts (n : Nat) (first : Bool) {code : Text} (begins : code <+: d) :
    Talk.Asks (s.Asking base request d) (s.attempts base request n first code) (· = d)
      fun e => ∃ p, e = .incomplete (s.run.maxRedos + 1) p ∧ p <+: d := by
  have once (first : Bool) : Talk.Asks (s.Asking base request d)
      (s.exchange base (if first then request else redoRequest request))
      (fun r => r.1 <+: d ∧ (r.2 = true → r.1 = d))
      fun e => ∃ p, e = .incomplete (s.run.maxRedos + 1) p ∧ p <+: d := by
    have member : (if first then request else redoRequest request) ∈ [request,redoRequest request] := by
      split <;> simp
    exact (asks_exchange tags unmarked honest member).mono (fun _ h => h) fun _ no => no.elim
  have longest {code found : Text} (begins : code <+: d) (part : found <+: d) :
      latest code found <+: d := by
    unfold latest
    split
    · exact begins
    · exact part
  induction n generalizing first code with
  | zero =>
    unfold attempts
    refine (once _).bind fun answer told => ?_
    obtain ⟨found,complete⟩ := answer
    obtain ⟨part,whole⟩ := told
    dsimp only at part whole ⊢
    split
    · rename_i ended
      exact .pure (whole ended)
    · exact .throw ⟨_,rfl,longest begins part⟩
  | succ n ih =>
    unfold attempts
    refine (once _).bind fun answer told => ?_
    obtain ⟨found,complete⟩ := answer
    obtain ⟨part,whole⟩ := told
    dsimp only at part whole ⊢
    split
    · rename_i ended
      exact .pure (whole ended)
    · exact ih false (longest begins part)

omit honest in
/-- Wherever the answers are cut off, a conversion quotes beginnings of the document only, and ends with
the document or gives up with a beginning of it. -/
theorem convert_continues (prompt : Text) {chunk : Text} (context : Text) {history : History}
    (filled : Text.blank chunk = false)
    (honest : s.Honest history.messages (Session.request prompt chunk context) d) :
    Talk.Asks (s.Asking history.messages (Session.request prompt chunk context) d)
      (s.convert prompt chunk context history) (·.1 = d)
      fun e => ∃ p, e = .incomplete (s.run.maxRedos + 1) p ∧ p <+: d := by
  unfold convert
  rw [if_neg (by simp [filled])]
  exact (asks_attempts tags unmarked honest s.run.maxRedos true List.nil_prefix).bind
    fun code same => .pure same

end

end Session

namespace Session

/-- A service that sends five characters of a document at a time. -/
def byFives (d : Text) : Service where
  answer := fun _ request =>
    match request.messages.reverse with
    | _ :: ⟨.assistant,quoted⟩ :: _ =>
      let rest := d.drop (quoted.length - 6)
      { outcome := .reply (.text (if rest.length ≤ 5 then rest ++ "</code>" else rest.take 5)) }
    | _ => { outcome := .reply (.text ("Here: " ++ ("<code>" ++ d.take 5))) }
  reachable := .reply (.text "yes")

def speller (d : Text) : Session where
  service := byFives d
  language := {
    target := "plain", inputExtension := ".src", outputExtension := ".out", prompt := "Translate." }
  run := {}

theorem honest_speller (d request : Text) :
    (speller d).Honest (speller d).newHistory.messages request d where
  first := by
    intro past asked _
    refine ⟨_,?_,.part (p := d.take 5) (show Lacks "<code>" "Here: " by decide) (List.take_prefix 5 d)⟩
    rfl
  next := by
    intro past asked _ p _
    have size : ("<code>" ++ p : Text).length - 6 = p.length := by simp
    refine ⟨_,rfl,?_⟩
    change NextAnswer _ (if (d.drop (("<code>" ++ p : Text).length - 6)).length ≤ 5 then
      d.drop (("<code>" ++ p : Text).length - 6) ++ "</code>" else
      (d.drop (("<code>" ++ p : Text).length - 6)).take 5)
    rw [size]
    split
    · exact .last (show Lacks "<code>" [] by decide)
    · exact .part (List.take_prefix 5 _)

/-- The first answer ends in a block that is written anew. -/
theorem convert_continues_speller :
    let d : Text := "f{a}b{c}d"
    let s := speller d
    let conversion := s.convert "Translate." "code" [] s.newHistory
    (conversion.run.run {}).1.toOption.map Prod.fst = some d ∧
      (conversion.run.run {}).2.calls.length = 2 ∧
      Talk.Asks (s.Asking s.newHistory.messages (request "Translate." "code" []) d) conversion (·.1 = d)
        fun e => ∃ p, e = .incomplete 3 p ∧ p <+: d := by
  intro d s conversion
  exact ⟨by decide +kernel,by decide +kernel,convert_continues rfl (by decide +kernel) "Translate." []
    (by decide +kernel) (honest_speller d _)⟩

end Session

end Recast
