import Mathlib.Data.List.Nodup
import Recast.Progress.State

/-! Tables with one value for each name, and what a progress says of a file once its outcome is
recorded. -/
namespace Recast

namespace Table
variable {α : Type} {t u : Table α}

theorem get?_set (t : Table α) (name other : Text) (a : α) :
    (t.set name a).get? other = if other = name then some a else t.get? other := by
  have replaced (t : Table α) :
      ((t.map fun e => if e.1 == name then (name,a) else e).find? fun e => e.1 == other) =
        if other = name then (t.find? fun e => e.1 == name).map fun _ => (name,a)
        else t.find? fun e => e.1 == other := by
    induction t with
    | nil => simp
    | cons e rest ih =>
      rw [List.map_cons,List.find?_cons,ih]
      by_cases here : e.1 = name
      · by_cases same : other = name
        · simp [here,same]
        · have apart : (name == other) = false := by simpa using Ne.symm same
          simp [here,same,apart]
      · by_cases same : other = name
        · have apart : (e.1 == name) = false := by simpa using here
          simp [same,apart]
        · cases there : e.1 == other <;> simp [here,same,there]
  unfold set get?
  split
  · rename_i present
    rw [replaced]
    split
    · obtain ⟨e,member,same⟩ := List.any_eq_true.1 present
      cases found : t.find? fun e => e.1 == name with
      | none => exact absurd same (List.find?_eq_none.1 found e member)
      | some d => rfl
    · rfl
  · rename_i absent
    rw [List.find?_append]
    by_cases same : other = name
    · have none_ : (t.find? fun e => e.1 == name) = none :=
        List.find?_eq_none.2 fun e member held => absent (List.any_eq_true.2 ⟨e,member,held⟩)
      simp [same,none_]
    · have apart : (name == other) = false := by simpa using Ne.symm same
      simp [same,apart]

theorem names_set (t : Table α) (name : Text) (a : α) :
    (t.set name a).names = if name ∈ t.names then t.names else t.names ++ [name] := by
  have present : (t.any fun e => e.1 == name) = true ↔ name ∈ t.names := by
    rw [List.any_eq_true]
    constructor
    · rintro ⟨e,member,same⟩
      exact List.mem_map.2 ⟨e,member,by simpa using same⟩
    · intro member
      obtain ⟨e,inside,same⟩ := List.mem_map.1 member
      exact ⟨e,inside,by simpa using same⟩
  unfold set
  by_cases member : name ∈ t.names
  · rw [if_pos (present.2 member),if_pos member]
    unfold names
    rw [List.map_map]
    refine List.map_congr_left fun e _ => ?_
    by_cases same : e.1 = name
    · simp [same]
    · simp [same]
  · rw [if_neg fun held => member (present.1 held),if_neg member]
    simp [names]

theorem nodup_set (distinct : t.names.Nodup) (name : Text) (a : α) : (t.set name a).names.Nodup := by
  rw [names_set]
  split
  · exact distinct
  · rename_i fresh
    simpa using distinct.concat fresh

/-- Where no name stands twice, a table gives what it holds. -/
theorem get?_eq_some (distinct : t.names.Nodup) {name : Text} {a : α} :
    t.get? name = some a ↔ (name,a) ∈ t := by
  constructor
  · intro found
    obtain ⟨e,held,rfl⟩ := Option.map_eq_some_iff.1 found
    have same : e.1 = name := by simpa using List.find?_some held
    exact same ▸ List.mem_of_find?_eq_some held
  · intro member
    cases held : t.find? fun e => e.1 == name with
    | none => exact absurd (by simp) (List.find?_eq_none.1 held _ member)
    | some e =>
      have same : e.1 = name := by simpa using List.find?_some held
      have one : e = (name,a) :=
        List.inj_on_of_nodup_map distinct (List.mem_of_find?_eq_some held) member same
      simp [get?,held,one]

theorem set_perm (same : t.Perm u) (name : Text) (a : α) : (t.set name a).Perm (u.set name a) := by
  unfold set
  rw [same.any_eq]
  split
  · exact same.map _
  · exact same.append_right _

theorem get?_perm (same : t.Perm u) (distinct : t.names.Nodup) (name : Text) :
    t.get? name = u.get? name := by
  have other : u.names.Nodup := (same.map Prod.fst).nodup_iff.1 distinct
  refine Option.ext fun a => ?_
  rw [get?_eq_some distinct,get?_eq_some other]
  exact same.mem_iff

end Table

namespace Progress
variable (p : Progress) (source output : Text) (o : FileOutcome) (now : Float)

theorem outcomes_record :
    (p.record source (some output) o now).outcomes = p.outcomes.set source o := by
  unfold record recount withOutcome
  cases o with
  | failed =>
    dsimp only
    split
    · rfl
    · rfl
  | _ => rfl

theorem outputs_record : (p.record source (some output) o now).outputs =
    if o.completed then p.outputs.set source output else p.outputs := by
  unfold record recount withOutcome
  cases o with
  | failed =>
    dsimp only
    split
    · rfl
    · rfl
  | _ => rfl

theorem output_record : (p.record source (some output) o now).output = p.output ∧
    (p.record source (some output) o now).id = p.id := by
  unfold record recount withOutcome
  cases o with
  | failed =>
    dsimp only
    split
    · exact ⟨rfl,rfl⟩
    · exact ⟨rfl,rfl⟩
  | _ => exact ⟨rfl,rfl⟩

theorem total_record : (p.record source (some output) o now).total = p.total := by
  unfold record recount withOutcome
  cases o with
  | failed =>
    dsimp only
    split
    · rfl
    · rfl
  | _ => rfl

variable {p} in
theorem nodup_record (outcomes : p.outcomes.names.Nodup) (outputs : p.outputs.names.Nodup) :
    (p.record source (some output) o now).outcomes.names.Nodup ∧
      (p.record source (some output) o now).outputs.names.Nodup := by
  rw [outcomes_record,outputs_record]
  refine ⟨Table.nodup_set outcomes source o,?_⟩
  split
  · exact Table.nodup_set outputs source output
  · exact outputs

theorem isCompleted_congr {p q : Progress} (same : q.outcomes = p.outcomes) (a : Text) :
    q.isCompleted a = p.isCompleted a := by
  unfold isCompleted
  rw [same]

theorem isCompleted_record (other : Text) : (p.record source (some output) o now).isCompleted other =
    if other = source then o.completed else p.isCompleted other := by
  unfold isCompleted
  rw [outcomes_record,Table.get?_set]
  split
  · rfl
  · rfl

variable {p} in
theorem mem_completedPaths {a : Text} : a ∈ p.completedPaths ↔ p.isCompleted a = true := by
  unfold completedPaths Text.sorted
  rw [(Ordered.sort_perm _ _).mem_iff,List.mem_filter]
  constructor
  · exact fun member => member.2
  · intro completed
    refine ⟨?_,completed⟩
    unfold isCompleted Table.get? at completed
    cases found : p.outcomes.find? fun e => e.1 == a with
    | none =>
      rw [found] at completed
      cases completed
    | some e =>
      have same : e.1 = a := by simpa using List.find?_some found
      exact List.mem_map.2 ⟨e,List.mem_of_find?_eq_some found,same⟩

variable {p} in
theorem nodup_completedPaths (distinct : p.outcomes.names.Nodup) : p.completedPaths.Nodup := by
  unfold completedPaths Text.sorted
  exact (Ordered.sort_perm _ _).nodup_iff.2 (distinct.filter _)

/-- The same record with its entries in any order, its name and its times left aside. -/
structure Like (p q : Progress) : Prop where
  root : q.root = p.root
  output : q.output = p.output
  outputs : q.outputs.Perm p.outputs
  processed : q.processed = p.processed
  total : q.total = p.total
  percent : q.percent = p.percent
  summary : q.summary = p.summary
  outcomes : q.outcomes.Perm p.outcomes
  failed : q.failed = p.failed

/-- What comes back when a checkpoint is read: the same record but for the order of its entries and
for its times. -/
structure Alike (p q : Progress) : Prop extends Like p q where
  id : q.id = p.id

section
variable {p q : Progress}

theorem Like.refl (p : Progress) : Like p p := ⟨rfl,rfl,.refl _,rfl,rfl,rfl,rfl,.refl _,rfl⟩

theorem Like.symm (like : Like p q) : Like q p :=
  ⟨like.root.symm,like.output.symm,like.outputs.symm,like.processed.symm,like.total.symm,
    like.percent.symm,like.summary.symm,like.outcomes.symm,like.failed.symm⟩

theorem Like.trans {r : Progress} (like : Like p q) (further : Like q r) : Like p r :=
  ⟨further.root.trans like.root,further.output.trans like.output,further.outputs.trans like.outputs,
    further.processed.trans like.processed,further.total.trans like.total,
    further.percent.trans like.percent,further.summary.trans like.summary,
    further.outcomes.trans like.outcomes,further.failed.trans like.failed⟩

theorem Alike.refl (p : Progress) : Alike p p := ⟨.refl p,rfl⟩

/-- The time at which a record was changed last does not matter. -/
theorem Like.dated (like : Like p q) (now later : Float) :
    Like { p with updated := now } { q with updated := later } :=
  ⟨like.root,like.output,like.outputs,like.processed,like.total,like.percent,like.summary,like.outcomes,
    like.failed⟩

theorem Like.isCompleted (like : Like p q) (distinct : p.outcomes.names.Nodup) (a : Text) :
    q.isCompleted a = p.isCompleted a := by
  unfold Progress.isCompleted
  rw [Table.get?_perm like.outcomes ((like.outcomes.map Prod.fst).nodup_iff.2 distinct)]

theorem Like.get?_outputs (like : Like p q) (single : p.outputs.names.Nodup) (a : Text) :
    q.outputs.get? a = p.outputs.get? a :=
  Table.get?_perm like.outputs ((like.outputs.map Prod.fst).nodup_iff.2 single) a

theorem Like.completedPaths (like : Like p q) (distinct : p.outcomes.names.Nodup) :
    q.completedPaths = p.completedPaths := by
  have same : q.isCompleted = p.isCompleted :=
    funext (like.isCompleted distinct)
  have listed : (q.outcomes.names.filter q.isCompleted).Perm (p.outcomes.names.filter p.isCompleted) := by
    rw [same]
    exact (like.outcomes.map Prod.fst).filter _
  have sorted (xs : List Text) : (Ordered.sort Text.ordered xs).Pairwise fun a b => Text.ordered a b :=
    Ordered.pairwise_sort Text.ordered_total Text.ordered_trans xs
  have permuted := ((Ordered.sort_perm Text.ordered _).trans listed).trans
    (Ordered.sort_perm Text.ordered _).symm
  exact List.Perm.eq_of_pairwise (fun _ _ _ _ => Text.ordered_antisymm) (sorted _) (sorted _) permuted

/-- A file is recorded alike whenever that is. -/
theorem Like.record (like : Like p q) (source output : Text) (o : FileOutcome) (now later : Float) :
    Like (p.record source (some output) o now) (q.record source (some output) o later) := by
  have outcomes := Table.set_perm like.outcomes source o
  have outputs := Table.set_perm like.outputs source output
  have count : Progress.countCompleted (q.outcomes.set source o) =
      Progress.countCompleted (p.outcomes.set source o) := outcomes.countP_eq _
  unfold Progress.record Progress.recount Progress.withOutcome Progress.percentage
  cases o with
  | failed =>
    dsimp only
    rw [like.failed]
    split
    · exact ⟨like.root,like.output,like.outputs,by rw [count],like.total,
        by rw [count,like.total],like.summary,outcomes,rfl⟩
    · exact ⟨like.root,like.output,like.outputs,by rw [count],like.total,
        by rw [count,like.total],like.summary,outcomes,rfl⟩
  | _ =>
    exact ⟨like.root,like.output,outputs,congrArg Int.ofNat count,like.total,
      by dsimp only; rw [count,like.total],like.summary,outcomes,by dsimp only; rw [like.failed]⟩

theorem Like.appendSummary (like : Like p q) (text : Text) (bound : Int) :
    (q.appendSummary text bound).summary = (p.appendSummary text bound).summary := by
  unfold Progress.appendSummary
  rw [like.summary]
  dsimp only
  split
  · exact like.summary
  · rfl

end

end Progress
end Recast
