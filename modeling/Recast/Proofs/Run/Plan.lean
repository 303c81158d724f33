import Mathlib.Data.List.Chain
import Recast.Proofs.Run.Stages

/-! The groups in which the files of a run are converted. Put together they are the files in their order; a
group of several files holds small files of one folder, ends only where the next file does not fit in, and
does not depend on the groups before it. -/
namespace Recast

theorem Path.beq_iff {p q : Path} : (p == q) = true ↔ p = q := by
  cases p
  cases q
  change (_ == _ && _ == _) = true ↔ _
  simp

namespace Group

/-- What a list ends in that begins with the open group is all of it, or it is in what comes then. -/
theorem suffix_close {held : List Source} {more ahead : List (List Source)}
    (suffix : ahead <:+ close held ++ more) : ahead = close held ++ more ∨ ahead <:+ more := by
  unfold close at suffix ⊢
  split at suffix
  · exact .inr suffix
  · rename_i filled
    rw [if_neg filled]
    exact List.suffix_cons_iff.1 suffix

/-- A file that begins a group begins one also when nothing was before it. -/
theorem gather_flatten_of_suffix {small budget : Nat} {held : List Source} {size : Nat}
    {files : List Source} {ahead : List (List Source)}
    (suffix : ahead <:+ gather small budget held size files) :
    ahead = gather small budget held size files ∨ gather small budget [] 0 ahead.flatten = ahead := by
  -- The cut of the groups falls behind the open group, which is why the first alternative is carried along.
  induction files generalizing held size with
  | nil =>
    rw [gather,← List.append_nil (close held)] at suffix ⊢
    refine (suffix_close suffix).imp_right fun last => ?_
    rw [List.suffix_nil.1 last]
    rfl
  | cons f rest ih =>
    have alone : gather small budget [] 0 (f :: rest) = if f.2.length < small then
        gather small budget [f] f.2.length rest else [f] :: gather small budget [] 0 rest := by
      rw [gather]
      simp [close]
    rw [gather] at suffix ⊢
    split at suffix
    · rename_i joins
      rw [if_pos joins]
      exact ih suffix
    · rename_i apart
      rw [if_neg apart]
      split at suffix
      · rename_i little
        rw [if_pos little]
        refine (suffix_close suffix).imp_right fun inside => ?_
        rcases ih inside with same | again
        · rw [same,flatten_gather]
          exact alone.trans (if_pos (by simpa using little))
        · exact again
      · rename_i large
        rw [if_neg large]
        refine (suffix_close suffix).imp_right fun inside => ?_
        rcases List.suffix_cons_iff.1 inside with same | later
        · rw [same,List.flatten_cons,flatten_gather]
          exact alone.trans (if_neg (by simpa using large))
        · rcases ih later with same | again
          · rw [same,flatten_gather]
            rfl
          · exact again

theorem plan_flatten_of_suffix {settings : LanguageSettings} {run : RunSettings} {files : List Source}
    {ahead : List (List Source)} (suffix : ahead <:+ plan settings run files) :
    plan settings run ahead.flatten = ahead := by
  unfold plan at suffix ⊢
  split at suffix
  · rename_i merged
    rw [if_pos merged]
    rcases gather_flatten_of_suffix suffix with same | again
    · rw [same,flatten_gather]
      rfl
    · exact again
  · rename_i single
    rw [if_neg single]
    obtain ⟨before,whole⟩ := suffix
    obtain ⟨_,last,_,_,rfl⟩ := List.map_eq_append_iff.1 whole.symm
    have alone := Converter.flatten_plan settings run last
    rw [plan,if_neg single] at alone
    rw [alone]

section Joining
variable {small budget size : Nat} {held files group : List Source} {f : Source}

/-- The characters of some files. -/
def characters (files : List Source) : Nat := (files.flatMap Prod.snd).length

/-- Small files of one folder that fit into one chunk. -/
structure Mergeable (small budget : Nat) (group : List Source) : Prop where
  folder : ∀ f ∈ group, ∀ g ∈ group, folder f = folder g
  small : ∀ f ∈ group, f.2.length < small
  fits : characters group ≤ budget

/-- A group that a small file does not join: a single file that is not small, files of another folder, or too
many characters. -/
def Refuses (small budget : Nat) (group : List Source) (f : Source) : Prop :=
  (∃ g, group = [g] ∧ small ≤ g.2.length) ∨ (∀ g ∈ group, folder g ≠ folder f) ∨
    budget < characters group + f.2.length

/-- Where one group ends and the next one begins, no small file could have been taken in. -/
def Ends (small budget : Nat) (group next : List Source) : Prop :=
  ∀ f ∈ next.head?, f.2.length < small → Refuses small budget group f

/-- A group to which files may still be added. -/
structure Open (small budget : Nat) (held : List Source) (size : Nat) : Prop where
  size : size = characters held
  alike : ∀ f ∈ held, ∀ g ∈ held, folder f = folder g
  small : ∀ f ∈ held, f.2.length < small
  fits : 2 ≤ held.length → characters held ≤ budget

theorem characters_concat (held : List Source) (f : Source) :
    characters (held ++ [f]) = characters held + f.2.length := by
  simp [characters]

theorem open_nil : Open small budget [] 0 := ⟨rfl,by simp,by simp,by simp⟩

theorem open_singleton (little : f.2.length < small) : Open small budget [f] f.2.length :=
  ⟨by simp [characters],by simp,by simpa using little,by simp⟩

theorem Open.mergeable (open_ : Open small budget held size) (several : 2 ≤ held.length) :
    Mergeable small budget held := ⟨open_.alike,open_.small,open_.fits several⟩

theorem Open.takes_iff (open_ : Open small budget held size) (little : f.2.length < small) :
    (f.2.length < small && held.head?.any (fun g => folder g == folder f) &&
      size + f.2.length ≤ budget) = true ↔
      held ≠ [] ∧ (∀ g ∈ held, folder g = folder f) ∧ characters held + f.2.length ≤ budget := by
  rw [← open_.size]
  cases held with
  | nil => simp
  | cons g more =>
    have shared : (∀ h ∈ g :: more, folder h = folder f) ↔ folder g = folder f := by
      constructor
      · exact fun all => all g (by simp)
      · exact fun same h member => (open_.alike h member g (by simp)).trans same
    rw [shared]
    simp [little,Path.beq_iff]

theorem Open.concat (open_ : Open small budget held size) (little : f.2.length < small)
    (same : ∀ g ∈ held, folder g = folder f) (fits : characters held + f.2.length ≤ budget) :
    Open small budget (held ++ [f]) (size + f.2.length) where
  size := by rw [characters_concat,open_.size]
  alike g inside h within := by
    have shared : ∀ g ∈ held ++ [f], folder g = folder f := by
      simpa [or_imp,forall_and] using same
    exact (shared g inside).trans (shared h within).symm
  small g member := by
    rcases List.mem_append.1 member with before | last
    · exact open_.small g before
    · rwa [List.mem_singleton.1 last]
  fits _ := by rwa [characters_concat]

/-- A small file that is not taken into an open group is refused by it. -/
theorem Open.refuses (open_ : Open small budget held size)
    (apart : ¬ ((∀ g ∈ held, folder g = folder f) ∧ characters held + f.2.length ≤ budget)) :
    Refuses small budget held f := by
  refine .inr ?_
  by_cases same : ∀ g ∈ held, folder g = folder f
  · exact .inr (Nat.not_le.1 fun fits => apart ⟨same,fits⟩)
  · refine .inl fun g member found => same fun h inside => ?_
    exact (open_.alike h inside g member).trans found

/-- The files that are held begin the first group. -/
theorem gather_head (filled : held ≠ []) (files : List Source) :
    ∃ more groups, gather small budget held size files = (held ++ more) :: groups := by
  induction files generalizing held size with
  | nil => exact ⟨[],[],by simp [gather,close,filled]⟩
  | cons f rest ih =>
    have closed : close held = [held] := by simp [close,filled]
    rw [gather]
    split
    · have longer : held ++ [f] ≠ [] := by simp
      obtain ⟨more,groups,same⟩ := ih longer
      exact ⟨f :: more,groups,by rw [same,List.append_assoc]; rfl⟩
    · rw [closed]
      split
      · exact ⟨[],_,by rw [List.append_nil]; rfl⟩
      · exact ⟨[],_,by rw [List.append_nil]; rfl⟩

/-- What is true of the groups in a list. -/
structure Fair (small budget : Nat) (groups : List (List Source)) : Prop where
  filled : ∀ group ∈ groups, group ≠ []
  mergeable : ∀ group ∈ groups, 2 ≤ group.length → Mergeable small budget group
  ends : groups.IsChain (Ends small budget)

theorem Fair.cons {groups : List (List Source)} (fair : Fair small budget groups) (filled : group ≠ [])
    (mergeable : 2 ≤ group.length → Mergeable small budget group)
    (ends : ∀ next ∈ groups.head?, Ends small budget group next) : Fair small budget (group :: groups) where
  filled := by simpa [filled] using fair.filled
  mergeable other member several := by
    rcases List.mem_cons.1 member with rfl | behind
    · exact mergeable several
    · exact fair.mergeable other behind several
  ends := List.isChain_cons.2 ⟨ends,fair.ends⟩

/-- The group that is closed where a file is not taken in goes before the groups that follow. -/
theorem Open.fair_close (open_ : Open small budget held size) {groups : List (List Source)}
    (fair : Fair small budget groups)
    (ends : held ≠ [] → ∀ next ∈ groups.head?, Ends small budget held next) :
    Fair small budget (close held ++ groups) := by
  by_cases filled : held = []
  · simpa [close,filled] using fair
  · have closed : close held = [held] := by simp [close,filled]
    rw [closed]
    exact fair.cons filled open_.mergeable (ends filled)

theorem Open.fair_gather (open_ : Open small budget held size) (files : List Source) :
    Fair small budget (gather small budget held size files) := by
  induction files generalizing held size with
  | nil =>
    rw [gather,← List.append_nil (close held)]
    exact open_.fair_close ⟨by simp,by simp,.nil⟩ (by simp)
  | cons f rest ih =>
    rw [gather]
    by_cases little : f.2.length < small
    · have takes := open_.takes_iff little
      split
      · rename_i taken
        obtain ⟨_,same,fits⟩ := takes.1 taken
        exact ih (open_.concat little same fits)
      · rename_i left
        refine open_.fair_close (ih (open_singleton little)) fun filled next first g begins _ => ?_
        obtain ⟨more,groups,shape⟩ : ∃ more groups,
            gather small budget [f] f.2.length rest = ([f] ++ more) :: groups := gather_head (by simp) rest
        rw [shape] at first
        cases first
        cases begins
        exact open_.refuses fun both => left (takes.2 ⟨filled,both⟩)
    · rw [if_neg (by simp [little]),if_neg little]
      have alone : Fair small budget ([f] :: gather small budget [] 0 rest) :=
        (ih open_nil).cons (by simp) (by simp) fun _ _ _ _ _ => .inl ⟨f,rfl,Nat.not_lt.1 little⟩
      refine open_.fair_close alone fun _ next first g begins small_ => ?_
      cases first
      cases begins
      exact absurd small_ little

end Joining

/-- The groups of a plan put together are the files in their order, and none of them is empty. A group of
several files holds small files of one folder that fit into a chunk. Without merging each file is a group of
its own; with merging a group ends only where the next file is not small or is refused. The groups behind the
first few are the plan of the files behind them. -/
theorem plan_partitions (settings : LanguageSettings) (run : RunSettings) (files : List Source) :
    let groups := plan settings run files
    groups.flatten = files ∧
    (∀ group ∈ groups, group ≠ []) ∧
    (∀ group ∈ groups, 2 ≤ group.length → Mergeable run.smallSize settings.chunkSize group) ∧
    (run.mergeSmall = false → ∀ group ∈ groups, group.length = 1) ∧
    (run.mergeSmall = true → groups.IsChain (Ends run.smallSize settings.chunkSize)) ∧
    ∀ k, plan settings run (files.drop (groups.take k).flatten.length) = groups.drop k := by
  intro groups
  have whole : groups.flatten = files := Converter.flatten_plan settings run files
  have restarts (k : Nat) :
      plan settings run (files.drop (groups.take k).flatten.length) = groups.drop k := by
    have cut : files = (groups.take k).flatten ++ (groups.drop k).flatten := by
      rw [← List.flatten_append,List.take_append_drop,whole]
    conv_lhs => rw [cut,List.drop_left]
    exact plan_flatten_of_suffix (List.drop_suffix k groups)
  refine ⟨whole,?_⟩
  cases merged : run.mergeSmall with
  | true =>
    have gathered : groups = gather run.smallSize settings.chunkSize [] 0 files := by
      simp [groups,plan,merged]
    have fair : Fair run.smallSize settings.chunkSize groups := gathered ▸ open_nil.fair_gather files
    exact ⟨fair.filled,fair.mergeable,by simp,fun _ => fair.ends,restarts⟩
  | false =>
    have single : ∀ group ∈ groups, group.length = 1 := by
      intro group member
      have alone : groups = files.map fun f => [f] := by simp [groups,plan,merged]
      rw [alone] at member
      obtain ⟨f,_,rfl⟩ := List.mem_map.1 member
      rfl
    refine ⟨fun group member none_ => ?_,fun group member several => ?_,fun _ => single,by simp,restarts⟩
    · rw [none_] at member
      exact absurd (single _ member) (by simp)
    · rw [single _ member] at several
      omega

end Group

end Recast
