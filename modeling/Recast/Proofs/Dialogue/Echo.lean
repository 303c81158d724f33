import Recast.Dialogue.Script
import Recast.Proofs.Dialogue.Service
import Recast.Proofs.Text.Search

/-! Conversations with a service that sends every code back. Code that has none of the words with a
meaning of their own comes back as it was sent. -/
namespace Recast
open Text

/-- The heading of the code in a request, without its line feed. -/
def headingWord : Text := "Code to translate:"

/-- Words that mean something in an answer or in a request. -/
def reserved : List Text := ["&","```","<![CDATA[","<code>","</code>",headingWord]

/-- No word with a meaning of its own stands in the text. -/
def Plain (s : Text) : Prop := ∀ word ∈ reserved, Lacks word s

instance (s : Text) : Decidable (Plain s) :=
  inferInstanceAs (Decidable (∀ word ∈ reserved, Lacks word s))

/-- The service answers each request in which code is announced with that code, and every other
one with some text. -/
structure Echoes (service : Service) : Prop where
  replies : ∀ past request, ∃ reply,
    (service.answer past request).outcome = .reply (.text reply)
  sendsBack : ∀ past request before code,
    cut? Session.codeHeading (Script.lastContent request) = some (before,code) →
    (service.answer past request).outcome = .reply (.text ("<code>" ++ code ++ "</code>"))

theorem Plain.of_within {s t : Text} (plain : Plain t) (inside : s <:+: t) : Plain s :=
  fun word member => (plain word member).of_within inside

theorem Entity.decode_of_notMem {s : Text} (absent : '&' ∉ s) : Entity.decode s = s := by
  unfold Entity.decode
  induction s with
  | nil => rfl
  | cons c s ih =>
    have other : c ≠ '&' := fun same => absent (by simp [same])
    rw [Entity.decodeFrom,if_neg other,ih fun inside => absent (by simp [inside])]

theorem trim_within (s : Text) : trim s <:+: s := by
  obtain ⟨left,right,_,_,same⟩ := trim_eq s
  exact ⟨left,right,same.symm⟩

/-- Words that mean something in an answer. -/
def markup : List Text := ["&","```","<![CDATA[","<code>","</code>"]

/-- No word that means something in an answer stands in the text. -/
def Unmarked (s : Text) : Prop := ∀ word ∈ markup, Lacks word s

instance (s : Text) : Decidable (Unmarked s) :=
  inferInstanceAs (Decidable (∀ word ∈ markup, Lacks word s))

theorem Plain.unmarked {s : Text} (plain : Plain s) : Unmarked s :=
  fun word member => plain word (List.mem_append_left [headingWord] member)

theorem Unmarked.of_within {s t : Text} (unmarked : Unmarked t) (inside : s <:+: t) : Unmarked s :=
  fun word member => (unmarked word member).of_within inside

/-- Code without references, fences and wrappers is read as it stands. -/
theorem Unmarked.decode {s : Text} (unmarked : Unmarked s) : Tags.decode s = s := by
  have unfenced : after? Fence.mark (trim s) = none :=
    after?_eq_none fun found => unmarked "```" (by simp [markup]) (found.isInfix.trans (trim_within s))
  have unwrapped : cut? Verbatim.opening s = none :=
    cut?_eq_none_iff.2 (unmarked "<![CDATA[" (by simp [markup]))
  have absent : '&' ∉ s := fun inside => by
    obtain ⟨front,back,same⟩ := List.append_of_mem inside
    exact unmarked "&" (by simp [markup]) ⟨front,back,by simp [same]⟩
  unfold Tags.decode Verbatim.unwrap Fence.strip
  rw [unwrapped]
  simp only [unfenced]
  exact Entity.decode_of_notMem absent

theorem cut?_word {w : Text} {c : Char} {r s : Text} (shape : w = c :: r) (once : c ∉ r)
    (lacking : Lacks w s) (t : Text) : cut? w (s ++ (w ++ t)) = some (s,t) := by
  subst shape
  exact cut?_append once lacking t

private theorem Plain.cuts {s : Text} (plain : Plain s) :
    cut? Tags.standard.opening ("<code>" ++ s ++ "</code>") = some ([],s ++ "</code>") ∧
      cut? Tags.standard.closing (s ++ "</code>") = some (s,[]) := by
  constructor
  · have first := cut?_word (w := "<code>") (s := []) rfl (by decide) (by decide) (s ++ "</code>")
    change cut? "<code>" _ = _
    simpa only [List.nil_append,List.append_assoc] using first
  · have last := cut?_word (w := "</code>") rfl (by decide) (plain "</code>" (by simp [reserved])) []
    change cut? "</code>" _ = _
    simpa only [List.append_nil] using last

theorem Plain.hasCode {s : Text} (plain : Plain s) :
    Tags.standard.hasCode ("<code>" ++ s ++ "</code>") = true := by
  unfold Tags.hasCode occurs
  rw [plain.cuts.1]
  rfl

theorem Plain.isComplete {s : Text} (plain : Plain s) :
    Tags.standard.isComplete ("<code>" ++ s ++ "</code>") = true := by
  unfold Tags.isComplete occurs
  rw [plain.cuts.1]
  simp only [plain.cuts.2]
  rfl

theorem Plain.code {s : Text} (plain : Plain s) :
    Tags.standard.code ("<code>" ++ s ++ "</code>") = s := by
  have inside : Tags.standard.section? ("<code>" ++ s ++ "</code>") = some s := by
    unfold Tags.section?
    rw [plain.cuts.1]
    simp only [plain.cuts.2]
  unfold Tags.code
  rw [inside]
  exact plain.unmarked.decode

namespace Session

/-- What stands before the code in a request. -/
def preface (prompt context : Text) : Text := trim prompt ++ "\n\n" ++ contextPart context

theorem cut?_request {prompt context : Text} (silent : Lacks codeHeading (preface prompt context))
    (chunk : Text) :
    cut? codeHeading (request prompt chunk context) = some (preface prompt context,chunk) := by
  have found := cut?_word (w := codeHeading) rfl (by decide) silent chunk
  simpa only [preface,request,List.append_assoc] using found

theorem lacks_heading {s : Text} (free : Lacks headingWord s) : Lacks codeHeading s :=
  free.of_word ⟨[],['\n'],by decide⟩

theorem codeHeading_eq : codeHeading = headingWord ++ ['\n'] := by decide

/-- The line that announces a context. -/
def contextIntro : Text := "Context (for reference only, do not translate it):"

theorem contextPart_eq {context : Text} (some_ : context ≠ []) :
    contextPart context = contextIntro ++ ['\n'] ++ (context ++ '\n' :: ['\n']) := by
  have intro_ : ("Context (for reference only, do not translate it):\n" : Text) =
    contextIntro ++ ['\n'] := by decide
  unfold contextPart
  rw [if_neg (by simp [some_]),intro_,List.append_assoc]
  rfl

/-- A prompt that does not announce code, and a context without the heading, make a preface without
it. -/
theorem lacks_preface {prompt context : Text} (quiet : Lacks codeHeading (trim prompt ++ "\n\n"))
    (free : Lacks headingWord context) : Lacks codeHeading (preface prompt context) := by
  unfold preface
  by_cases empty : context = []
  · simpa [contextPart,empty] using quiet
  · have begins : trim prompt ++ "\n\n" = (trim prompt ++ ['\n']) ++ ['\n'] := by simp
    have ends : Lacks (headingWord ++ ['\n']) (context ++ '\n' :: ['\n']) := by
      rw [← codeHeading_eq]
      exact lacks_heading (free.append_of_fresh (by decide) (by decide))
    rw [codeHeading_eq,begins] at quiet
    rw [codeHeading_eq,begins,contextPart_eq empty]
    exact .append_of_last (by decide) quiet (.append_of_last (by decide) (by decide +kernel) ends)

end Session

section Talks
variable {service : Service}

theorem gives_ask (echoes : Echoes service) (goesOn : service.GoesOn) (request : Request) :
    Steps.Gives Line.Running (service.ask request) fun reply =>
      (∃ text, reply = .text text) ∧ ∀ before code,
        cut? Session.codeHeading (Script.lastContent request) = some (before,code) →
        reply = .text ("<code>" ++ code ++ "</code>") := by
  intro line running
  obtain ⟨text,outcome⟩ := echoes.replies line.calls request
  refine ⟨.text text,service.answered request line,?_,⟨⟨text,rfl⟩,fun before code found => ?_⟩,
    running.answered goesOn request⟩
  · rw [Service.run_ask,outcome]
    rfl
  · have sent := echoes.sendsBack line.calls request before code found
    rw [outcome] at sent
    injection sent

end Talks

namespace Session
variable (s : Session) (echoes : Echoes s.service) (goesOn : s.service.GoesOn)
  (tags : s.language.tags = .standard)
include echoes goesOn tags

theorem gives_exchange (base : List Message) {request before code : Text} (plain : Plain code)
    (found : cut? codeHeading request = some (before,code)) :
    Steps.Gives Line.Running (s.exchange base request) (· = (code,true)) := by
  unfold exchange
  refine (gives_ask echoes goesOn _).bind fun reply ⟨_,sent⟩ => ?_
  have last : Script.lastContent ⟨s.maxTokens,base ++ [⟨.user,request⟩]⟩ = request := by
    simp [Script.lastContent]
  rw [sent before code (by rw [last]; exact found)]
  simp only [tags,Reply.hasCode,Reply.isComplete,Reply.code,plain.hasCode,plain.isComplete,
    plain.code]
  exact .pure rfl

theorem gives_attempts (base : List Message) {request before code : Text} (plain : Plain code)
    (found : cut? codeHeading request = some (before,code)) (n : Nat) :
    Steps.Gives Line.Running (s.attempts base request n true []) (· = code) := by
  have first := s.gives_exchange echoes goesOn tags base plain found
  cases n with
  | zero =>
    unfold attempts
    exact first.bind fun _ same => by subst same; exact .pure rfl
  | succ n =>
    unfold attempts
    exact first.bind fun _ same => by subst same; exact .pure rfl

/-- Plain code comes back from a conversion as it is. -/
theorem gives_convert {prompt chunk context : Text}
    (silent : Lacks codeHeading (preface prompt context)) (plain : Plain chunk)
    (history : History) :
    Steps.Gives Line.Running (s.convert prompt chunk context history) (·.1 = chunk) := by
  unfold convert
  split
  · exact .pure rfl
  · refine (s.gives_attempts echoes goesOn tags history.messages plain
      (cut?_request silent chunk) s.run.maxRedos).bind fun _ same => ?_
    exact .pure same

omit tags in
theorem gives_confirm (question context : Text) (history : History) :
    Steps.Gives Line.Running (s.confirm question context history) fun _ => True := by
  unfold confirm
  exact (gives_ask echoes goesOn _).bind fun _ _ => .pure trivial

end Session

end Recast
