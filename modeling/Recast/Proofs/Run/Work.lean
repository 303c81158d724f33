import Recast.Proofs.Run.Failure

/-! The work on a group of files, done twice under different circumstances: both times it takes the
same steps in the same order, and it stays away from the progress and from what is kept outside of
the store. -/
namespace Recast

/-- The kinds of events that tell of the work on a group. -/
def EventKind.ofWork : EventKind → Bool
  | .fileStarted | .chunkConverted | .repairRound | .paused | .resumed => true
  | _ => false

/-- Who answers a run, who watches it, and when it takes place. -/
structure Circumstance where
  service : Service
  watches : List Watch := []
  now : Float

namespace Converter
variable (c : Converter)

def under (x : Circumstance) : Converter :=
  { c with service := x.service, watches := x.watches, now := x.now }

theorem under_outputOf? (x : Circumstance) (source : Text) :
    (c.under x).outputOf? source = c.outputOf? source := rfl

/-- Work that takes the same steps under both circumstances. What is caught is never what halts a
run. -/
inductive Works (x y : Circumstance) : {α : Type} → Run α → Run α → Prop
  | pure {α : Type} (a : α) : Works x y (pure a) (pure a)
  | throw {α : Type} (e : RunError) : Works x y (throw e : Run α) (throw e)
  | bind {α β : Type} {m n : Run α} {f g : α → Run β} :
      Works x y m n → (∀ a, Works x y (f a) (g a)) → Works x y (m >>= f) (n >>= g)
  | attempt {α β : Type} {m n : Run α} {f g : Except RunError α → Run β} :
      Works x y m n → (∀ r, Works x y (f r) (g r)) →
      (∀ e : RunError, e.Halted → f (.error e) = throw e ∧ g (.error e) = throw e) →
      Works x y (Run.observe m >>= f) (Run.observe n >>= g)
  | emit (e : Event) : e.kind.ofWork = true → Works x y ((c.under x).emit e) ((c.under y).emit e)
  | poll : Works x y (c.under x).poll (c.under y).poll
  | sleep (seconds : Float) : Works x y (Run.sleep seconds) (Run.sleep seconds)
  | convert (prompt text context : Text) (history : History) :
      Works x y (Run.talk ((c.under x).session.convert prompt text context history))
        (Run.talk ((c.under y).session.convert prompt text context history))
  | confirm (code : Text) (issues : List Issue) (history : History) :
      Works x y ((c.under x).confirmRepair code issues history)
        ((c.under y).confirmRepair code issues history)
  | repair (code : Text) (issues : List Issue) (history : History) :
      Works x y ((c.under x).repairOnce code issues history)
        ((c.under y).repairOnce code issues history)
  | context (given : Text) : Works x y ((c.under x).summaryContext given) ((c.under y).summaryContext given)
  | transcript (source : Text) (history : History) :
      Works x y ((c.under x).saveTranscript source history) ((c.under y).saveTranscript source history)

namespace Works
variable {c} {x y : Circumstance}

theorem convertText (prompt text context : Text) (history : History) :
    c.Works x y ((c.under x).convertText prompt text context history)
      ((c.under y).convertText prompt text context history) := by
  unfold Converter.convertText
  refine .attempt (.convert prompt text context history) (fun r => ?_) fun e halted => ?_
  · cases r with
    | ok found => exact .pure _
    | error e =>
      split
      · exact .pure _
      · exact .pure _
      · exact .throw _
  · cases e with
    | talk t => exact absurd halted not_halted
    | _ => exact ⟨rfl,rfl⟩

theorem convertBodies (context : Text) (bodies : List Text) (history : History) :
    c.Works x y ((c.under x).convertBodies context bodies history)
      ((c.under y).convertBodies context bodies history) := by
  induction bodies generalizing history with
  | nil => exact .pure _
  | cons body rest ih =>
    unfold Converter.convertBodies
    refine .bind .poll fun _ => .bind (convertText _ body context history) fun first => ?_
    exact .bind (ih _) fun _ => .pure _

theorem convertChunk (chunk : Chunk) (context : Text) (history : History) :
    c.Works x y ((c.under x).convertChunk chunk context history)
      ((c.under y).convertChunk chunk context history) := by
  by_cases long : Chunk.needsOutline c.settings.language chunk = true
  · have opened (z : Circumstance) : (c.under z).convertChunk chunk context history =
        (c.under z).convertOutline chunk.text context history := if_pos long
    rw [opened,opened]
    unfold Converter.convertOutline
    refine .bind (convertText _ _ context history) fun outline => ?_
    exact .bind (convertBodies _ _ _) fun _ => .pure _
  · have opened (z : Circumstance) : (c.under z).convertChunk chunk context history =
        (c.under z).convertText c.settings.language.prompt chunk.text context history := if_neg long
    rw [opened,opened]
    exact convertText _ _ _ _

theorem convertChunks (source context : Text) (total : Nat) (chunks : List Chunk) (history : History) :
    c.Works x y ((c.under x).convertChunks source context total chunks history)
      ((c.under y).convertChunks source context total chunks history) := by
  induction chunks generalizing history with
  | nil => exact .pure _
  | cons chunk rest ih =>
    unfold Converter.convertChunks
    refine .bind .poll fun _ => .bind (convertChunk chunk context history) fun _ => ?_
    exact .bind (.emit _ rfl) fun _ => .bind (ih _) fun _ => .pure _

theorem repairRounds (source : Text) (history : History) (left done : Nat) (code : Text)
    (issues : List Issue) :
    c.Works x y ((c.under x).repairRounds source history left done code issues)
      ((c.under y).repairRounds source history left done code issues) := by
  induction left generalizing done code issues with
  | zero =>
    unfold Converter.repairRounds
    split
    · exact .pure _
    · exact .pure _
  | succ left ih =>
    unfold Converter.repairRounds
    split
    · exact .pure _
    · refine .bind .poll fun _ => .bind (.confirm code issues history) fun wanted => ?_
      split
      · refine .bind (.repair code issues history) fun code => ?_
        exact .bind (.emit _ rfl) fun _ => ih _ _ _
      · exact .pure _

theorem finish (source output content code : Text) (failed : List Int) (history : History) :
    c.Works x y ((c.under x).finish source output content code failed history)
      ((c.under y).finish source output content code failed history) := by
  unfold Converter.finish
  split
  · exact .pure _
  · refine .bind (repairRounds _ _ _ _ _ _) fun repaired => ?_
    exact .bind (.transcript source history) fun _ => .pure _

theorem convertOnce (source output content given : Text) :
    c.Works x y ((c.under x).convertOnce source output content given)
      ((c.under y).convertOnce source output content given) := by
  unfold Converter.convertOnce
  refine .bind (.context given) fun context => ?_
  exact .bind (convertChunks _ _ _ _ _) fun _ => finish _ _ _ _ _ _

theorem retry {once twice : Run Converted} (works : c.Works x y once twice)
    (failure : Text → Converted) (left tried : Nat) :
    c.Works x y ((c.under x).retry once failure left tried) ((c.under y).retry twice failure left tried) := by
  have halts (e : RunError) (halted : e.Halted) : ∀ t, e ≠ .talk t := fun t same =>
    not_halted (same ▸ halted)
  induction left generalizing tried with
  | zero =>
    unfold Converter.retry
    refine .attempt works (fun r => ?_) fun e halted => ?_
    · split
      · exact .pure _
      · exact .pure _
      · exact .throw _
    · cases e with
      | talk t => exact absurd rfl (halts _ halted t)
      | _ => exact ⟨rfl,rfl⟩
  | succ left ih =>
    unfold Converter.retry
    refine .attempt works (fun r => ?_) fun e halted => ?_
    · split
      · exact .pure _
      · exact .bind (.sleep _) fun _ => ih _
      · exact .throw _
    · cases e with
      | talk t => exact absurd rfl (halts _ halted t)
      | _ => exact ⟨rfl,rfl⟩

theorem convertFile (path content given : Text) :
    c.Works x y ((c.under x).convertFile path content given)
      ((c.under y).convertFile path content given) := by
  unfold Converter.convertFile
  dsimp only
  rw [under_outputOf?,under_outputOf?]
  split
  · exact .throw _
  · exact retry (convertOnce _ _ _ _) _ _ _

theorem convertEach (files : List Source) :
    c.Works x y ((c.under x).convertEach files) ((c.under y).convertEach files) := by
  induction files with
  | nil => exact .pure _
  | cons f rest ih => exact .bind (convertFile _ _ _) fun _ => .bind ih fun _ => .pure _

theorem finishEach (history : History) (files : List (Source × Text)) :
    c.Works x y ((c.under x).finishEach history files) ((c.under y).finishEach history files) := by
  induction files with
  | nil => exact .pure _
  | cons f rest ih =>
    unfold Converter.finishEach
    rw [under_outputOf?,under_outputOf?]
    split
    · exact .throw _
    · exact .bind (finish _ _ _ _ _ _) fun _ => .bind ih fun _ => .pure _

theorem convertMerged (files : List Source) :
    c.Works x y ((c.under x).convertMerged files) ((c.under y).convertMerged files) := by
  unfold Converter.convertMerged
  refine .bind (.context []) fun context => ?_
  refine .attempt (.convert _ _ _ _) (fun r => ?_) fun e halted => ?_
  · split
    · exact .pure _
    · exact .pure _
    · exact .pure _
    · exact .throw _
  · cases e with
    | talk t => exact absurd halted not_halted
    | _ => exact ⟨rfl,rfl⟩

/-- The work on a group takes the same steps under all circumstances. -/
theorem groupWork (files : List Source) :
    c.Works x y ((c.under x).groupWork files) ((c.under y).groupWork files) := by
  unfold Converter.groupWork Converter.convertGroup
  refine .bind .poll fun _ => .bind (.emit _ rfl) fun _ => ?_
  split
  · exact convertEach _
  · refine .bind (convertMerged files) fun found => ?_
    split
    · exact convertEach _
    · exact finishEach _ _

theorem symm {α : Type} {m n : Run α} (works : c.Works x y m n) : c.Works y x n m := by
  induction works with
  | pure a => exact .pure a
  | throw e => exact .throw e
  | bind _ _ first next => exact .bind first next
  | attempt _ _ halts first next => exact .attempt first next fun e halted => (halts e halted).symm
  | emit e work => exact .emit e work
  | poll => exact .poll
  | sleep seconds => exact .sleep seconds
  | convert prompt text context history => exact .convert prompt text context history
  | confirm code issues history => exact .confirm code issues history
  | repair code issues history => exact .repair code issues history
  | context given => exact .context given
  | transcript source history => exact .transcript source history

end Works
end Converter
end Recast
