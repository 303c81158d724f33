import Mathlib.Data.List.Dedup
import Mathlib.Data.List.Induction
import Mathlib.Data.List.Perm.Subperm
import Recast.Proofs.Progress.Percent
import Recast.Proofs.Progress.Table

/-! What a progress says of its files is what was recorded of each of them last. The list of failures, the
table of outputs and the counters are kept side by side, and each record brings them up to date. -/
namespace Recast

namespace Table
variable {α : Type} {t u : Table α}

theorem set_set (t : Table α) (name : Text) (a b : α) : (t.set name a).set name b = t.set name b := by
  have given : ((t.set name a).any fun e => e.1 == name) = true := by
    have member : name ∈ (t.set name a).names := by
      rw [names_set]
      split
      · assumption
      · simp
    obtain ⟨e,inside,same⟩ := List.mem_map.1 member
    exact List.any_eq_true.2 ⟨e,inside,by simpa using same⟩
  rw [set,if_pos given]
  unfold set
  split
  · rw [List.map_map]
    refine List.map_congr_left fun e _ => ?_
    by_cases same : e.1 = name
    · simp [same]
    · simp [same]
  · rename_i absent
    have apart : ∀ e ∈ t, (if e.1 == name then (name,b) else e) = e := by
      intro e member
      exact if_neg fun same => absent (List.any_eq_true.2 ⟨e,member,same⟩)
    rw [List.map_append,List.map_congr_left apart,List.map_id']
    simp

/-- Tables without repeated names that give the same are the same but for the order. -/
theorem perm_of_get? (left : t.names.Nodup) (right : u.names.Nodup)
    (same : ∀ name, t.get? name = u.get? name) : t.Perm u := by
  refine (List.perm_ext_iff_of_nodup (List.Nodup.of_map _ left) (List.Nodup.of_map _ right)).2 fun e => ?_
  rw [← get?_eq_some left,← get?_eq_some right,same]

end Table

theorem FileOutcome.completed_iff (o : FileOutcome) : o.completed = true ↔ o = .clean ∨ o = .flagged := by
  cases o <;> decide

namespace Progress

/-- What is recorded of a file that has an output path. -/
structure Filed where
  source : Text
  output : Text
  outcome : FileOutcome
  time : Float

def file (p : Progress) (f : Filed) : Progress := p.record f.source (some f.output) f.outcome f.time

def fileAll (p : Progress) (fs : List Filed) : Progress := fs.foldl file p

/-- The last record of a file. -/
def last? (fs : List Filed) (a : Text) : Option Filed := (fs.filter fun f => f.source = a).getLast?

/-- The last record of a file that came with an output. -/
def lastDone? (fs : List Filed) (a : Text) : Option Filed := last? (fs.filter (·.outcome.completed)) a

section Last
variable (fs : List Filed) (f g : Filed) (a : Text)

theorem last?_concat : last? (fs ++ [f]) a = if f.source = a then some f else last? fs a := by
  unfold last?
  rw [List.filter_append,List.filter_singleton]
  by_cases here : f.source = a
  · simp [here]
  · simp [here]

theorem lastDone?_concat : lastDone? (fs ++ [f]) a =
    if f.outcome.completed = true ∧ f.source = a then some f else lastDone? fs a := by
  unfold lastDone?
  rw [List.filter_append,List.filter_singleton]
  cases done : f.outcome.completed with
  | true => simp [last?_concat]
  | false => simp

variable {f g} in
theorem last?_swap (apart : f.source ≠ g.source) :
    last? (fs ++ [f] ++ [g]) a = last? (fs ++ [g] ++ [f]) a := by
  rw [last?_concat,last?_concat,last?_concat,last?_concat]
  split
  · rename_i here
    rw [if_neg fun there => apart (there.trans here.symm)]
  · rfl

variable {f g} in
theorem lastDone?_swap (apart : f.source ≠ g.source) :
    lastDone? (fs ++ [f] ++ [g]) a = lastDone? (fs ++ [g] ++ [f]) a := by
  rw [lastDone?_concat,lastDone?_concat,lastDone?_concat,lastDone?_concat]
  split
  · rename_i here
    rw [if_neg fun there => apart (there.2.trans here.2.symm)]
  · rfl

variable {fs a f} in
/-- A file that has an output now got it with its last record. -/
theorem lastDone?_of_last? (held : last? fs a = some f) (done : f.outcome.completed = true) :
    lastDone? fs a = some f := by
  induction fs using List.reverseRecOn with
  | nil => exact held
  | append_singleton fs g ih =>
    rw [last?_concat] at held
    rw [lastDone?_concat]
    by_cases here : g.source = a
    · rw [if_pos here] at held
      cases held
      exact if_pos ⟨done,here⟩
    · rw [if_neg here] at held
      rw [if_neg fun both => here both.2,ih held]

variable {fs a f} in
theorem mem_of_last? (held : last? fs a = some f) : f ∈ fs ∧ f.source = a := by
  have member := List.mem_filter.1 (List.mem_of_getLast? held)
  exact ⟨member.1,of_decide_eq_true member.2⟩

end Last

/-- What no record of a file changes. -/
def heading (p : Progress) : Int × Text × Text × Text × Int × Text × Float :=
  (p.version,p.id,p.root,p.output,p.total,p.summary,p.created)

/-- The views that a progress keeps of what was recorded since it began. -/
structure Accounts (begun : Progress) (fs : List Filed) (p : Progress) : Prop where
  outcome : ∀ a, p.outcomes.get? a = (last? fs a).map Filed.outcome
  output : ∀ a, p.outputs.get? a = (lastDone? fs a).map Filed.output
  outcomes : p.outcomes.names.Nodup
  outputs : p.outputs.names.Nodup
  mem_failed : ∀ a, a ∈ p.failed ↔ p.outcomes.get? a = some .failed
  failed : p.failed.Nodup
  processed : p.processed = countCompleted p.outcomes
  percent : p.percent = p.percentage
  heading : p.heading = begun.heading

section Record
variable {begun p q : Progress} {fs gs : List Filed} {f g : Filed}

theorem failed_file (p : Progress) (f : Filed) : (p.file f).failed =
    if f.outcome = .failed then if f.source ∈ p.failed then p.failed else p.failed ++ [f.source]
    else p.failed.erase f.source := by
  unfold file record recount withOutcome
  cases f.outcome with
  | failed =>
    rw [if_pos rfl]
    by_cases listed : f.source ∈ p.failed
    · simp [listed]
    · simp [listed]
  | _ => rfl

theorem mem_failed_file (distinct : p.failed.Nodup) (a : Text) : a ∈ (p.file f).failed ↔
    if f.source = a then f.outcome = .failed else a ∈ p.failed := by
  rw [failed_file]
  by_cases fell : f.outcome = .failed
  · rw [if_pos fell]
    by_cases here : f.source = a
    · subst here
      by_cases listed : f.source ∈ p.failed
      · rw [if_pos listed]
        simp [listed,fell]
      · rw [if_neg listed]
        simp [fell]
    · rw [if_neg here]
      split
      · rfl
      · simp [Ne.symm here]
  · rw [if_neg fell,distinct.mem_erase_iff]
    by_cases here : f.source = a
    · simp [here,fell]
    · simp [here,Ne.symm here]

theorem nodup_failed_file (distinct : p.failed.Nodup) : (p.file f).failed.Nodup := by
  rw [failed_file]
  split
  · split
    · exact distinct
    · rename_i fresh
      simpa using distinct.concat fresh
  · exact distinct.erase _

theorem heading_file (p : Progress) (f : Filed) : (p.file f).heading = p.heading := by
  unfold file record recount withOutcome percentage
  cases f.outcome with
  | failed =>
    dsimp only
    split
    · rfl
    · rfl
  | _ => rfl

/-- Each record brings all views up to date. -/
theorem Accounts.file (accounts : Accounts begun fs p) (f : Filed) :
    Accounts begun (fs ++ [f]) (p.file f) := by
  have outcomes : (p.file f).outcomes = p.outcomes.set f.source f.outcome := outcomes_record ..
  have outputs : (p.file f).outputs = _ := outputs_record ..
  have outcome (a : Text) : (p.file f).outcomes.get? a = (last? (fs ++ [f]) a).map Filed.outcome := by
    rw [outcomes,Table.get?_set,last?_concat,accounts.outcome]
    by_cases here : f.source = a
    · simp [here]
    · simp [here,Ne.symm here]
  refine ⟨outcome,fun a => ?_,?_,?_,fun a => ?_,nodup_failed_file accounts.failed,rfl,rfl,?_⟩
  · rw [outputs,lastDone?_concat]
    by_cases done : f.outcome.completed = true
    · rw [if_pos done,Table.get?_set,accounts.output]
      by_cases here : f.source = a
      · simp [done,here]
      · simp [here,Ne.symm here]
    · simp [done,accounts.output]
  · rw [outcomes]
    exact Table.nodup_set accounts.outcomes _ _
  · rw [outputs]
    split
    · exact Table.nodup_set accounts.outputs _ _
    · exact accounts.outputs
  · rw [mem_failed_file accounts.failed,outcomes,Table.get?_set,accounts.mem_failed]
    by_cases here : f.source = a
    · simp [here]
    · simp [here,Ne.symm here]
  · rw [heading_file,accounts.heading]

/-- A run of records is an account of all of them. -/
theorem Accounts.fileAll (accounts : Accounts begun fs p) (gs : List Filed) :
    Accounts begun (fs ++ gs) (p.fileAll gs) := by
  induction gs generalizing fs p with
  | nil =>
    rw [List.append_nil]
    exact accounts
  | cons g gs ih =>
    rw [List.append_cons]
    exact ih (accounts.file g)

theorem Accounts.total (accounts : Accounts begun fs p) : p.total = begun.total := by
  have heading := accounts.heading
  simp only [Progress.heading,Prod.mk.injEq] at heading
  exact heading.2.2.2.2.1

theorem Accounts.isCompleted (accounts : Accounts begun fs p) (a : Text) :
    p.isCompleted a = true ↔ ∃ f, last? fs a = some f ∧ f.outcome.completed = true := by
  unfold Progress.isCompleted
  rw [accounts.outcome]
  cases last? fs a <;> simp

/-- As many files are counted as are listed. -/
theorem length_completedPaths (distinct : p.outcomes.names.Nodup) :
    p.completedPaths.length = countCompleted p.outcomes := by
  have told : ∀ e ∈ p.outcomes, (p.isCompleted ∘ Prod.fst) e = e.2.completed := by
    intro e member
    rw [Function.comp_apply,Progress.isCompleted]
    rw [(Table.get?_eq_some distinct).2 member]
    rfl
  unfold completedPaths Text.sorted Table.names countCompleted
  rw [(Ordered.sort_perm _ _).length_eq,List.filter_map,List.length_map,List.countP_eq_length_filter,
    List.filter_congr told]

/-- No more files have an output than there are different ones. -/
theorem Accounts.length_le (accounts : Accounts begun fs p) :
    p.completedPaths.length ≤ (fs.map Filed.source).dedup.length := by
  refine (List.subperm_of_subset (nodup_completedPaths accounts.outcomes) fun a member => ?_).length_le
  obtain ⟨f,held,_⟩ := (accounts.isCompleted a).1 (mem_completedPaths.1 member)
  obtain ⟨inside,rfl⟩ := mem_of_last? held
  exact List.mem_dedup.2 (List.mem_map_of_mem inside)

/-- Accounts that agree on the last records of each file are the same but for the order and the time. -/
theorem Accounts.alike (accounts : Accounts begun fs p) (others : Accounts begun gs q)
    (last : ∀ a, last? gs a = last? fs a) (done : ∀ a, lastDone? gs a = lastDone? fs a) :
    Alike p { q with failed := p.failed } ∧ q.failed.Perm p.failed := by
  have heading : q.heading = p.heading := others.heading.trans accounts.heading.symm
  simp only [Progress.heading,Prod.mk.injEq] at heading
  obtain ⟨_,id,root,output,total,summary,_⟩ := heading
  have outcome (a : Text) : q.outcomes.get? a = p.outcomes.get? a := by
    rw [others.outcome,accounts.outcome,last]
  have outcomes : q.outcomes.Perm p.outcomes :=
    Table.perm_of_get? others.outcomes accounts.outcomes outcome
  have outputs : q.outputs.Perm p.outputs := Table.perm_of_get? others.outputs accounts.outputs fun a => by
    rw [others.output,accounts.output,done]
  have processed : q.processed = p.processed := by
    rw [others.processed,accounts.processed,countCompleted,outcomes.countP_eq]
    rfl
  have percent : q.percent = p.percent := by
    rw [others.percent,accounts.percent,percentage,percentage,processed,total]
  have failed : q.failed.Perm p.failed := by
    refine (List.perm_ext_iff_of_nodup others.failed accounts.failed).2 fun a => ?_
    rw [others.mem_failed,accounts.mem_failed,outcome]
  exact ⟨{
    root := root, output := output, outputs := outputs, processed := processed, total := total
    percent := percent, summary := summary, outcomes := outcomes, failed := rfl, id := id },failed⟩

theorem file_file (distinct : p.failed.Nodup) (f : Filed) (time : Float) :
    (p.file f).file { f with time := time } = p.file { f with time := time } := by
  unfold file record recount withOutcome percentage
  dsimp only
  cases f.outcome with
  | failed =>
    by_cases listed : f.source ∈ p.failed
    · simp [listed,Table.set_set]
    · simp [listed,Table.set_set]
  | _ => simp only [Table.set_set,List.erase_of_not_mem distinct.not_mem_erase]

end Record

/-- Whatever is recorded of the files of a project, from the beginning on, its progress says of each file
what came last: its outcome, whether it failed, whether it has an output and where, and how many have one, in
percent of the total as well. A record that comes twice counts once, and the order of the records of two files
shows in nothing but the order of the lists. -/
theorem fileAll_accounts (id root output : Text) (total : Int) (created updated : Float)
    (fs : List Filed) :
    let begun : Progress := { id, root, output, total, created, updated }
    let p := begun.fileAll fs
    (∀ a, p.outcomes.get? a = (last? fs a).map Filed.outcome) ∧
    (p.failed.Nodup ∧ ∀ a, a ∈ p.failed ↔ (last? fs a).map Filed.outcome = some .failed) ∧
    (∀ a, p.isCompleted a = true ↔
      ∃ f, last? fs a = some f ∧ (f.outcome = .clean ∨ f.outcome = .flagged)) ∧
    (∀ a f, p.isCompleted a = true → last? fs a = some f → p.outputs.get? a = some f.output) ∧
    (p.completedPaths.Pairwise (fun a b => Text.ordered a b = true ∧ a ≠ b) ∧
      ∀ a, a ∈ p.completedPaths ↔ p.isCompleted a = true) ∧
    p.processed = p.completedPaths.length ∧
    ((fs.map Filed.source).dedup.length < 2 ^ 40 →
      p.percent = if total ≤ 0 then 0 else min 100 (p.processed * 100 / total)) ∧
    (∀ (f : Filed) (time : Float), begun.fileAll (fs ++ [f] ++ [{ f with time := time }]) =
      begun.fileAll (fs ++ [{ f with time := time }])) ∧
    ∀ f g : Filed, f.source ≠ g.source →
      let q := begun.fileAll (fs ++ [f] ++ [g])
      let r := begun.fileAll (fs ++ [g] ++ [f])
      Alike q { r with failed := q.failed } ∧ r.failed.Perm q.failed := by
  intro begun p
  have fresh : Accounts begun [] begun :=
    ⟨fun _ => rfl,fun _ => rfl,List.nodup_nil,List.nodup_nil,fun _ => by simp [begun,Table.get?],
      List.nodup_nil,rfl,(Percent.of_zero total).symm,rfl⟩
  have accounts (gs : List Filed) : Accounts begun gs (begun.fileAll gs) := fresh.fileAll gs
  have now : Accounts begun fs p := accounts fs
  have counted : p.processed = p.completedPaths.length := by
    rw [now.processed,length_completedPaths now.outcomes]
  refine ⟨now.outcome,⟨now.failed,fun a => by rw [now.mem_failed,now.outcome]⟩,fun a => ?_,
    fun a f done last => ?_,⟨?_,fun a => mem_completedPaths⟩,counted,fun few => ?_,fun f time => ?_,
    fun f g apart => ?_⟩
  · simp only [now.isCompleted,FileOutcome.completed_iff]
  · obtain ⟨_,same,completed⟩ := (now.isCompleted a).1 done
    cases last.symm.trans same
    rw [now.output,lastDone?_of_last? last completed]
    rfl
  · have ordered := Ordered.pairwise_sort Text.ordered_total Text.ordered_trans
      (p.outcomes.names.filter p.isCompleted)
    exact ordered.and (nodup_completedPaths now.outcomes)
  · rw [now.percent,percentage,counted,Percent.of_eq (Nat.lt_of_le_of_lt now.length_le few),now.total]
  · rw [fileAll,fileAll,List.foldl_append,List.foldl_append,List.foldl_append]
    exact file_file now.failed f time
  · exact (accounts _).alike (accounts _) (fun a => last?_swap fs a apart.symm)
      fun a => lastDone?_swap fs a apart.symm

/-- A file that failed first has an output in the end; of three files one is done, which is 33 percent. -/
theorem fileAll_accounts_retried :
    let begun : Progress := {
      id := "s", root := "src", output := "out", total := 3, created := 0, updated := 0 }
    let retried : List Filed := [⟨"a.src","A.out",.failed,1⟩,⟨"a.src","A.out",.flagged,2⟩]
    let late : Filed := ⟨"b.src","B.out",.failed,3⟩
    let again : Filed := ⟨"a.src","A.out",.clean,4⟩
    let p := begun.fileAll retried
    let q := begun.fileAll (retried ++ [late] ++ [again])
    p.outputs.get? "a.src" = some "A.out".toList ∧ p.failed = [] ∧ p.percent = 33 ∧
      q.failed = ["b.src".toList] ∧
      Alike q { begun.fileAll (retried ++ [again] ++ [late]) with failed := q.failed } := by
  intro begun retried late again p q
  obtain ⟨_,_,_,output,_,_,percent,_,either⟩ := fileAll_accounts "s" "src" "out" 3 0 0 retried
  refine ⟨output "a.src" ⟨"a.src","A.out",.flagged,2⟩ (by decide +kernel) rfl,by decide +kernel,?_,
    by decide +kernel,(either late again (by decide)).1⟩
  exact (percent (by decide +kernel)).trans (by decide +kernel)

end Progress

end Recast
