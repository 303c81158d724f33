import Recast.Proofs.Dialogue.Following
import Recast.Rename.Namer

/-! Conversations with two services that reply alike. Whatever was asked before and whatever commands
come with the replies, both conversations come to the same result. -/
namespace Recast

namespace Steps
variable {ε σ α β : Type} {R : σ → σ → Prop}

/-- From related states both ways give the same, and they end in related states. -/
def Agree (R : σ → σ → Prop) (m n : Steps ε σ α) : Prop :=
  ∀ s t, R s t → (m.run.run s).1 = (n.run.run t).1 ∧ R (m.run.run s).2 (n.run.run t).2

theorem Follows.agree {m n : Steps ε σ α} (follows : Follows R R (fun _ _ => False) m n) :
    Agree R m n := fun s t related =>
  (follows s t related).resolve_right fun ⟨_,_,broken⟩ => broken

theorem Agree.pure (a : α) : Agree R (pure a : Steps ε σ α) (pure a) :=
  fun _ _ related => ⟨rfl,related⟩

theorem Agree.throw (e : ε) : Agree R (throw e : Steps ε σ α) (throw e) :=
  fun _ _ related => ⟨rfl,related⟩

theorem Agree.bind {m n : Steps ε σ α} {f g : α → Steps ε σ β} (first : Agree R m n)
    (next : ∀ a, Agree R (f a) (g a)) : Agree R (m >>= f) (n >>= g) :=
  Follows.agree (Follows.bind (fun s t related => .inl (first s t related))
    fun a s t related => .inl (next a s t related))

theorem Agree.tryCatch {m n : Steps ε σ α} {f g : ε → Steps ε σ α} (first : Agree R m n)
    (next : ∀ e, Agree R (f e) (g e)) : Agree R (tryCatch m f) (tryCatch n g) := by
  intro s t related
  obtain ⟨same,after⟩ := first s t related
  rw [run_tryCatch,run_tryCatch]
  cases left : m.run.run s with
  | mk r s_ =>
    cases right : n.run.run t with
    | mk r_ t_ =>
      rw [left,right] at same after
      cases same
      cases r with
      | ok a => exact ⟨rfl,after⟩
      | error e => exact next e s_ t_ after

end Steps

open Steps

/-- The service never fails, and its replies follow from the requests. -/
def Service.Answers (service : Service) (f : Request → Text) : Prop :=
  ∀ past request, (service.answer past request).outcome = .reply (.text (f request))

/-- Talks that come to the same result, whatever was said before. -/
abbrev Agreeing {α : Type} (m n : Talk α) : Prop := Agree (fun _ _ : Line => True) m n

section
variable {f : Request → Text} {a b : Service} (left : a.Answers f) (right : b.Answers f)
include left right

theorem Service.follows_ask (request : Request) :
    Follows (fun _ _ => True) (fun _ _ => True) (fun _ _ => False) (a.ask request) (b.ask request) := by
  intro l k _
  rw [run_ask,run_ask,left,right]
  exact .inl ⟨rfl,trivial⟩

namespace Session
variable (s : Session)

theorem agree_convert (prompt chunk context : Text) (history : History) :
    Agreeing ((s.on a).convert prompt chunk context history)
      ((s.on b).convert prompt chunk context history) :=
  (follows_convert (Service.follows_ask left right) s prompt chunk context history).agree

theorem agree_confirm (question context : Text) (history : History) :
    Agreeing ((s.on a).confirm question context history)
      ((s.on b).confirm question context history) :=
  (follows_confirm (Service.follows_ask left right) s question context history).agree

theorem agree_summarize (path code : Text) :
    Agreeing ((s.on a).summarize path code) ((s.on b).summarize path code) :=
  (follows_summarize (Service.follows_ask left right) s path code).agree

end Session

namespace Namer

/-- The namer whose session has another service. -/
def on (n : Namer) (service : Service) : Namer :=
  { n with session := n.session.map fun s => s.on service }

theorem agree_suggested (n : Namer) (old content : Text) :
    Agreeing ((n.on a).suggested old content) ((n.on b).suggested old content) := by
  unfold suggested on
  cases n.session with
  | none => exact .pure _
  | some s =>
    have named := (Session.follows_suggestName (Service.follows_ask left right) s old content).agree
    refine named.tryCatch fun e => ?_
    cases e with
    | service why => exact .pure _
    | _ => exact .throw _

theorem agree_index (n : Namer) (files : List (Text × Text)) :
    Agreeing ((n.on a).index files) ((n.on b).index files) := by
  have all (olds : List Text) (fs : List Unnamed) (index : NameIndex) :
      Agreeing ((n.on a).nameAll olds fs index) ((n.on b).nameAll olds fs index) := by
    induction fs generalizing index with
    | nil => exact .pure _
    | cons f rest ih => exact (agree_suggested left right n _ _).bind fun name => ih _
  exact all _ _ _

end Namer

theorem Repairer.agree_passes (r : Repairer) (left_ depth : Nat) (code : Text) (issues : List Issue) :
    Agree RepairState.Level ((r.on a).passes left_ depth code issues)
      ((r.on b).passes left_ depth code issues) := by
  intro s t level
  have told := (follows_passes (Service.follows_ask left right) r (fun _ _ _ broken => broken) left_ depth
    code issues).agree s t ⟨level,trivial⟩
  exact ⟨told.1,told.2.1⟩

end

end Recast
