import Recast.Proofs.Run.Abreast

/-! One run next to another one that is not cancelled. Group after group they record the same files;
where the first one is cancelled, the rest of the second one is still ahead of it. -/
namespace Recast
open Steps

theorem Service.Answers.sendsTexts {f : Request → Text} {service : Service}
    (answers : service.Answers f) : service.SendsTexts := by
  intro past request v same
  rw [answers] at same
  cases same

namespace Converter
variable {c : Converter} {x y : Circumstance} {f : Request → Text}

/-- The places where two sessions keep their checkpoints, and where the transcripts are. -/
def Own (c : Converter) (id other : Text) (k : Key) : Prop :=
  c.store.Checkpoint (id ++ ".json") k ∨ c.store.Checkpoint (other ++ ".json") k ∨ c.Transcript k

instance (c : Converter) (id other : Text) (k : Key) : Decidable (c.Own id other k) :=
  inferInstanceAs (Decidable (_ ∨ _ ∨ _))

/-- Two runs at the same point: both have completed the same files, and all their outputs are
there. -/
structure Together (c : Converter) (start other : Progress) (finished : List Text) (p q : Progress)
    (w u : World) : Prop where
  left : w.progress = some p
  right : u.progress = some q
  id : p.id = start.id
  others : q.id = other.id
  output : p.output = start.output
  total : p.total = start.total
  abreast : Abreast (c.Own start.id other.id) p q w.tree u.tree
  present : Present (c.Own start.id other.id) p w.tree
  completed : ∀ a, p.isCompleted a = true ↔ a ∈ finished

/-- The outputs of some files have names and stay away from the places that are the runs' own. -/
def Placed (c : Converter) (start other : Progress) (files : List Converted) : Prop :=
  ∀ g ∈ files, g.output ≠ [] ∧ ¬ c.Own start.id other.id (outputKey start g.output)

variable {start other : Progress} {finished : List Text} {p q : Progress} {w u v v_ : World}

theorem Together.beside (together : c.Together start other finished p q w u)
    (one : Beside c.Transcript w v) (two : Beside c.Transcript u v_) :
    c.Together start other finished p q v v_ := by
  have own (k : Key) (outside : ¬ c.Own start.id other.id k) : ¬ c.Transcript k :=
    fun held => outside (.inr (.inr held))
  exact { together with
    left := one.progress.trans together.left
    right := two.progress.trans together.right
    abreast := together.abreast.later (fun k outside => one.files k (own k outside)) one.folders
      (fun k outside => two.files k (own k outside)) two.folders
    present := together.present.later fun k outside => one.files k (own k outside) }

section
variable (left : x.service.Answers f) (right : y.service.Answers f)
include left right

/-- A file adds the same to both summaries. -/
theorem summaryWith_eq (like : p.Like q) (g : Converted) (l k : Line) :
    (c.under y).summaryWith g q k = (c.under x).summaryWith g p l := by
  have told := (Session.agree_summarize left right c.session g.output g.content l k trivial).1
  change (((c.under x).session.summarize g.output g.content).run.run l).1 =
    (((c.under y).session.summarize g.output g.content).run.run k).1 at told
  unfold summaryWith
  rw [← told]
  change (if c.settings.run.summaries then _ else _) = if c.settings.run.summaries then _ else _
  split
  · split
    · exact like.appendSummary _ _
    · exact like.summary
  · exact like.summary

theorem recorded_like (like : p.Like q) (g : Converted) (l k : Line) :
    ((c.under x).recorded g p l).Like ((c.under y).recorded g q k) := by
  have summaries : (if g.outcome.completed then (c.under y).summaryWith g q k else q.summary) =
      if g.outcome.completed then (c.under x).summaryWith g p l else p.summary := by
    rw [summaryWith_eq left right like g l k,like.summary]
  have with_ : ({ p with summary := if g.outcome.completed then (c.under x).summaryWith g p l
        else p.summary } : Progress).Like
      { q with summary := if g.outcome.completed then (c.under y).summaryWith g q k else q.summary } :=
    ⟨like.root,like.output,like.outputs,like.processed,like.total,like.percent,summaries,like.outcomes,
      like.failed⟩
  exact with_.record _ _ _ _ _

theorem Together.record (together : c.Together start other finished p q w u) {g : Converted}
    (completed : g.outcome.completed = true) (placed : c.Placed start other [g])
    {done total done_ total_ : Nat} {one two : Unit}
    (ran : ((c.under x).record g done total).run.run w = (.ok one,v))
    (ran_ : ((c.under y).record g done_ total_).run.run u = (.ok two,v_)) :
    ∃ p_ q_, c.Together start other (finished ++ [g.source]) p_ q_ v v_ := by
  obtain ⟨filled,outside⟩ := placed g (by simp)
  obtain ⟨held,files,folders,rooted⟩ := run_record_completed completed together.left ran
  obtain ⟨held_,files_,folders_,rooted_⟩ := run_record_completed completed together.right ran_
  have abreast := together.abreast
  rw [abreast.outputKey_eq] at files_ rooted_
  have away : ¬ c.Own start.id other.id (outputKey p g.output) := by
    rw [outputKey_congr together.output]
    exact outside
  have key := outputKey_congr ((c.under x).output_recorded g p w.line)
  have here (k : Key) (off : ¬ c.Own start.id other.id k) := files k fun held => off (.inl (together.id ▸ held))
  have there (k : Key) (off : ¬ c.Own start.id other.id k) :=
    files_ k fun held => off (.inr (.inl (together.others ▸ held)))
  have output (a : Text) : ((c.under x).recorded g p w.line).outputs.get? a =
      if a = g.source then some g.output else p.outputs.get? a := by
    rw [get?_recorded]
    simp [completed]
  obtain ⟨distinct,single⟩ := (c.under x).nodup_recorded g w.line abreast.distinct abreast.single
  refine ⟨_,_,held,held_,(c.under x).id_recorded g p _ |>.trans together.id,
    (c.under y).id_recorded g q _ |>.trans together.others,
    (c.under x).output_recorded g p _ |>.trans together.output,
    (c.under x).total_recorded g p _ |>.trans together.total,
    ⟨recorded_like left right abreast.like g _ _,distinct,single,?_,?_⟩,?_,?_⟩
  · intro k off
    rw [here k off,there k off,abreast.files k off]
  · intro a o held
    rw [output] at held
    rw [key]
    split at held
    · cases held
      exact ⟨rooted,rooted_⟩
    · obtain ⟨root,root_⟩ := abreast.rooted a o held
      exact ⟨folders _ root,folders_ _ root_⟩
  · intro a o held
    rw [output] at held
    rw [key]
    split at held
    · cases held
      exact ⟨filled,away,_,by rw [here _ away,if_pos rfl]⟩
    · obtain ⟨some_,off,content,file⟩ := together.present a o held
      refine ⟨some_,off,?_⟩
      rw [here _ off]
      split
      · exact ⟨_,rfl⟩
      · exact ⟨content,file⟩
  · intro a
    rw [isCompleted_recorded,completed,List.mem_append,List.mem_singleton,← together.completed]
    by_cases last : a = g.source
    · simp [last]
    · simp [last]

theorem Together.recordEach {found : List Converted} (together : c.Together start other finished p q w u)
    (completed : ∀ g ∈ found, g.outcome.completed = true) (placed : c.Placed start other found)
    {done total done_ total_ : Nat} {result result_ : RunResult} {r_ : Nat × RunResult}
    {r : Except RunError (Nat × RunResult)}
    (ran : ((c.under x).recordEach total found done result).run.run w = (r,v))
    (fine : ∀ e, r = .error e → ¬ e.OfFiles)
    (ran_ : ((c.under y).recordEach total_ found done_ result_).run.run u = (.ok r_,v_)) :
    ∃ more p_ q_, r = .ok more ∧
      c.Together start other (finished ++ found.map Converted.source) p_ q_ v v_ := by
  induction found generalizing finished p q w u done done_ result result_ with
  | nil =>
    cases ran
    cases ran_
    exact ⟨_,p,q,rfl,by simpa using together⟩
  | cons g rest ih =>
    obtain ⟨_,between_,first_,ran_⟩ := ok_of_run_bind ran_
    unfold Converter.recordEach at ran
    rw [run_bind] at ran
    cases first : ((c.under x).record g (done + 1) total).run.run w with
    | mk answer between =>
      rw [first] at ran
      cases answer with
      | error e =>
        cases ran
        exact absurd ((obeys_record left.sendsTexts g _ _).error first) (fine e rfl)
      | ok one =>
        obtain ⟨p1,q1,further⟩ := together.record left right (completed g (by simp))
          (fun h member => placed h (by simp_all)) first first_
        have later := ih further (fun h member => completed h (by simp [member]))
          (fun h member => placed h (by simp [member])) ran ran_
        obtain ⟨more,p2,q2,same,last⟩ := later
        exact ⟨more,p2,q2,same,by simpa using last⟩

end

/-- What was done before the work on groups is among what is done after it. -/
theorem obeys_convertGroups_files (sends : c.service.SendsTexts) (total : Nat)
    (groups : List (List Source)) (done : Nat) (result : RunResult) :
    Obeys (c.convertGroups total groups done result) (fun r => result.files <+: r.2.files)
      fun _ => True := by
  induction groups generalizing done result with
  | nil => exact .pure (List.prefix_refl _)
  | cons first rest ih =>
    intro w
    rw [run_convertGroups]
    cases (c.groupWork first).run.run w with
    | mk r between =>
      cases r with
      | error e =>
        cases e with
        | cancelled => exact List.prefix_refl _
        | _ => trivial
      | ok found =>
        refine ((obeys_recordEach sends total found done result).mono (fun _ h => h)
          fun _ _ => trivial).bind (fun r told => ?_) between
        refine (ih r.1 r.2).mono (fun more longer => ?_) fun _ h => h
        rw [told.1] at longer
        exact (List.prefix_append _ _).trans longer

/-- Work on groups that is not cancelled and completes all files leads from one world to another. -/
def Finishes (c : Converter) (groups : List (List Source)) (u v : World) : Prop :=
  ∃ total done result r, (c.convertGroups total groups done result).run.run u = (.ok r,v) ∧
    r.2.cancelled = false ∧ ∀ g ∈ r.2.files, g.outcome.completed = true

theorem Finishes.cons (sends : c.service.SendsTexts) {first : List Source} {rest : List (List Source)}
    {u v : World} (finishes : c.Finishes (first :: rest) u v) :
    ∃ found between after total done result r, (c.groupWork first).run.run u = (.ok found,between) ∧
      (∀ g ∈ found, g.outcome.completed = true) ∧
      (c.recordEach total found done result).run.run between = (.ok r,after) ∧
      c.Finishes rest after v := by
  obtain ⟨total,done,result,r,ran,whole,completed⟩ := finishes
  rcases convertGroups_cons ran with ⟨between,_,ran⟩ | ⟨found,between,more,after,worked,recorded,ran⟩
  · cases ran
    cases whole
  · have files := ((obeys_recordEach sends total found done result).ok recorded).1
    have longer := (obeys_convertGroups_files sends total rest more.1 more.2).ok ran
    refine ⟨found,between,after,total,done,result,more,worked,fun g member => ?_,recorded,
      total,more.1,more.2,r,ran,whole,completed⟩
    refine completed g (longer.subset ?_)
    rw [files]
    exact List.mem_append_right _ member

/-- Where a run stands once the work on groups has ended: it is at the end of the other run, or it was
cancelled and the rest of the other run is still ahead. -/
def Kept (c : Converter) (start other : Progress) (finished : List Text) (groups : List (List Source))
    (y : Circumstance) (v last : World) (cancelled : Bool) : Prop :=
  ∃ before ahead p q mid, groups = before ++ ahead ∧ (c.under y).Finishes ahead mid last ∧
    c.Together start other (finished ++ before.flatten.map Prod.fst) p q v mid ∧
    (cancelled = false → ahead = [])

/-- The files of a group go where their sources say. -/
theorem Placed.of_covers {first : List Source} {found : List Converted}
    (covers : c.Covers (first.map Prod.fst) found)
    (placed : ∀ g ∈ first, ∀ o, c.outputOf? g.1 = some o →
      o ≠ [] ∧ ¬ c.Own start.id other.id (outputKey start o)) : c.Placed start other found := by
  intro g member
  have inside : g.source ∈ first.map Prod.fst := covers.1 ▸ List.mem_map.2 ⟨g,member,rfl⟩
  obtain ⟨h,listed,source⟩ := List.mem_map.1 inside
  refine placed h listed g.output ?_
  rw [source]
  exact covers.2 g member

section
variable (left : x.service.Answers f) (right : y.service.Answers f)
include left right

theorem Together.convertGroups {groups : List (List Source)}
    (together : c.Together start other finished p q w u)
    (normal : ∀ g ∈ groups.flatten, (Path.ofText g.1).toText = g.1)
    (placed : ∀ g ∈ groups.flatten, ∀ o, c.outputOf? g.1 = some o →
      o ≠ [] ∧ ¬ c.Own start.id other.id (outputKey start o))
    {last : World} (finishes : (c.under y).Finishes groups u last) {total done : Nat}
    {result : RunResult} (going : result.cancelled = false) {r : Except RunError (Nat × RunResult)}
    (ran : ((c.under x).convertGroups total groups done result).run.run w = (r,v))
    (fine : ∀ e, r = .error e → ¬ e.OfFiles) :
    ∃ more, r = .ok more ∧ c.Kept start other finished groups y v last more.2.cancelled := by
  induction groups generalizing finished p q w u done result with
  | nil =>
    cases ran
    exact ⟨_,rfl,[],[],p,q,u,rfl,finishes,by simpa using together,fun _ => rfl⟩
  | cons first rest ih =>
    obtain ⟨found,between_,after_,_,_,_,_,worked_,completed,recorded_,later⟩ :=
      finishes.cons right.sendsTexts
    have works : c.Works x y _ _ := .groupWork first
    have same := works.same left right w u (by
      rw [together.left,together.right]
      exact congrArg some together.abreast.like.summary.symm)
    have beside := works.leaves w
    have beside_ := works.symm.leaves u
    have covers := ((c.under y).obeys_groupWork first fun g member => normal g (by simp [member])).ok worked_
    rw [worked_] at same beside_
    rw [run_convertGroups] at ran
    cases worked : ((c.under x).groupWork first).run.run w with
    | mk answer between =>
      rw [worked] at same beside ran
      have here : c.Together start other finished p q between u := together.beside beside (.refl u)
      -- The work of both is the same unless one is stopped, and the other run came to its end.
      rcases same with ⟨e,stopped,why⟩ | ⟨e,stopped,why⟩ | equal
      · cases stopped
        rcases why with rfl | fault
        · cases ran
          refine ⟨_,rfl,[],first :: rest,p,q,u,rfl,finishes,?_,fun none_ => by cases none_⟩
          rw [List.flatten_nil,List.map_nil,List.append_nil]
          exact here.beside ⟨rfl,rfl,fun _ _ => rfl,fun _ h => h⟩ (.refl u)
        · cases e with
          | cancelled => exact fault.elim
          | _ =>
            cases ran
            exact absurd fault (fine _ rfl)
      · cases stopped
      · cases equal
        dsimp only at ran
        rw [run_bind] at ran
        have there : c.Together start other finished p q between between_ := together.beside beside beside_
        have away : c.Placed start other found := .of_covers covers fun g member => placed g (by simp [member])
        cases recorded : ((c.under x).recordEach total found done result).run.run between with
        | mk answer after =>
          rw [recorded] at ran
          cases answer with
          | error e =>
            cases ran
            exact absurd ((obeys_recordEach left.sendsTexts _ _ _ _).error recorded) (fine e rfl)
          | ok more =>
            have counted := (obeys_recordEach (c := c.under x) left.sendsTexts total found done result).ok
              recorded
            obtain ⟨_,p1,q1,equal,further⟩ := there.recordEach left right completed away recorded
              (fun e none_ => by cases none_) recorded_
            cases equal
            rw [covers.1] at further
            have ends := ih further (fun g member => normal g (by simp [member]))
              (fun g member => placed g (by simp [member])) later (counted.2.trans going) ran
            obtain ⟨final,same,before,ahead,p2,q2,mid,cut,rest_,last_,all⟩ := ends
            exact ⟨final,same,first :: before,ahead,p2,q2,mid,by rw [cut]; rfl,rest_,
              by simpa using last_,all⟩

end

end Converter
end Recast
