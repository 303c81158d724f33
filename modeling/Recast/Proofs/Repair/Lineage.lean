import Mathlib.Data.List.Flatten
import Recast.Proofs.Repair.Best
import Recast.Proofs.Repair.Replacement

/-! Which lines a pass of a repair touches. Every line is followed from the code to where its
replacements are. The place of an issue is the last one of those that the lines up to its own have left,
so that a request is about the line of its issue unless nothing is left of that line. -/
namespace Recast
open Text Steps

/-- Lines, each with the number of the line of the code that it comes from. -/
abbrev Lineage := List (Int × Text)

namespace Lineage
variable {x : Lineage} {n m : Int}

/-- Lines that come from themselves. -/
def ofLines (n : Int) : List Text → Lineage
  | [] => []
  | line :: rest => (n,line) :: ofLines (n + 1) rest

def lines (x : Lineage) : List Text := x.map Prod.snd

/-- Lines in the place of one come from where it does. -/
def put (x : Lineage) (place : Nat) (new : List Text) : Lineage :=
  match x[place]? with
  | none => x
  | some (n,_) => x.take place ++ new.map (n,·) ++ x.drop (place + 1)

/-- How many lines are left of those up to a line of the code. -/
def upTo (x : Lineage) (n : Int) : Nat := x.countP (·.1 ≤ n)

def Ordered (x : Lineage) : Prop := x.Pairwise (·.1 ≤ ·.1)

/-- What comes from the lines without an issue. -/
def untouched (x : Lineage) (issues : List Issue) : List Text :=
  lines (x.filter fun entry => issues.all fun issue => issue.line ≠ entry.1)

/-- Nothing is left of a line, but something of the lines above it. -/
def Lost (x : Lineage) (n : Int) : Prop := (∀ entry ∈ x, entry.1 ≠ n) ∧ ∃ entry ∈ x, entry.1 < n

@[simp] theorem lines_cons (n : Int) (line : Text) (x : Lineage) :
    lines ((n,line) :: x) = line :: x.lines := rfl

@[simp] theorem lines_append (x y : Lineage) : lines (x ++ y) = x.lines ++ y.lines := List.map_append

@[simp] theorem lines_map (n : Int) (new : List Text) : lines (new.map (n,·)) = new := by
  simp [lines,Function.comp_def]

theorem length_lines (x : Lineage) : x.lines.length = x.length := List.length_map _

theorem lines_ofLines (n : Int) (ls : List Text) : (ofLines n ls).lines = ls := by
  induction ls generalizing n with
  | nil => rfl
  | cons line rest ih => exact congrArg (line :: ·) (ih (n + 1))

theorem le_of_mem_ofLines {ls : List Text} {entry : Int × Text} (member : entry ∈ ofLines n ls) :
    n ≤ entry.1 := by
  induction ls generalizing n with
  | nil => simp [ofLines] at member
  | cons line rest ih =>
    rcases List.mem_cons.1 member with rfl | later
    · exact Int.le_refl n
    · have := ih later
      omega

theorem exists_mem_ofLines {ls : List Text} (after : n ≤ m) (before : m < n + ls.length) :
    ∃ line, (m,line) ∈ ofLines n ls := by
  induction ls generalizing n with
  | nil =>
    rw [List.length_nil] at before
    omega
  | cons line rest ih =>
    by_cases same : n = m
    · exact ⟨line,by simp [ofLines,same]⟩
    · rw [List.length_cons] at before
      obtain ⟨found,member⟩ := ih (n := n + 1) (by omega) (by omega)
      exact ⟨found,List.mem_cons_of_mem _ member⟩

theorem ordered_ofLines (n : Int) (ls : List Text) : (ofLines n ls).Ordered := by
  induction ls generalizing n with
  | nil => exact .nil
  | cons line rest ih =>
    refine List.pairwise_cons.2 ⟨fun entry member => ?_,ih (n + 1)⟩
    have := le_of_mem_ofLines member
    change n ≤ entry.1
    omega

theorem upTo_ofLines (n m : Int) (ls : List Text) :
    ((ofLines n ls).upTo m : Int) = max 0 (min (m - n + 1) ls.length) := by
  induction ls generalizing n with
  | nil => simp [ofLines,upTo]
  | cons line rest ih =>
    have tail := ih (n + 1)
    unfold upTo at tail ⊢
    rw [ofLines,List.countP_cons,List.length_cons]
    by_cases within : n ≤ m
    · simp only [within,decide_true,if_true]
      omega
    · simp only [within,decide_false,Bool.false_eq_true,if_false]
      omega

/-- The last line that is left of those up to a line. -/
theorem Ordered.cut (ordered : x.Ordered) {place : Nat} (last : place + 1 = x.upTo m) :
    ∃ (front : Lineage) (n : Int) (line : Text) (back : Lineage), x = front ++ (n,line) :: back ∧
      front.length = place ∧ n ≤ m ∧ (∀ entry ∈ front, entry.1 ≤ n) ∧ ∀ entry ∈ back, m < entry.1 := by
  induction x generalizing place with
  | nil => simp [upTo] at last
  | cons first x ih =>
    obtain ⟨above,later⟩ := List.pairwise_cons.1 ordered
    unfold upTo at last ih
    rw [List.countP_cons] at last
    by_cases within : first.1 ≤ m
    · simp only [within,decide_true,if_true,Nat.add_right_cancel_iff] at last
      cases place with
      | zero =>
        refine ⟨[],first.1,first.2,x,rfl,rfl,within,by simp,fun entry member => ?_⟩
        have none_ := List.countP_eq_zero.1 last.symm entry member
        simpa using none_
      | succ place =>
        obtain ⟨front,n,line,back,rfl,rfl,below,order,behind⟩ := ih later last
        refine ⟨first :: front,n,line,back,rfl,rfl,below,?_,behind⟩
        rintro entry (_ | ⟨_,inside⟩)
        · exact above (n,line) (by simp)
        · exact order entry inside
    · have none_ : x.countP (·.1 ≤ m) = 0 := by
        refine List.countP_eq_zero.2 fun entry member => ?_
        have := above entry member
        simp only [decide_eq_true_eq]
        omega
      simp only [none_,within,decide_false,Bool.false_eq_true,if_false] at last
      omega

theorem put_append (front : Lineage) (n : Int) (line : Text) (back : Lineage) (new : List Text) :
    put (front ++ (n,line) :: back) front.length new = front ++ new.map (n,·) ++ back := by
  simp [put]

/-- What is put in the place of one line is counted, and that line no more. -/
theorem upTo_put {front back : Lineage} {line : Text} (within : n ≤ m) (new : List Text) :
    ((front ++ new.map (n,·) ++ back).upTo m : Int) =
      (front ++ (n,line) :: back).upTo m + new.length - 1 := by
  simp only [upTo,List.append_assoc,List.countP_append,List.countP_map,Function.comp_def,within,
    decide_true,List.countP_true,Int.natCast_add,List.countP_cons_of_pos,Int.cast_ofNat_Int]
  omega

theorem Ordered.put {front back : Lineage} {line : Text} (ordered : Ordered (front ++ (n,line) :: back))
    (new : List Text) : Ordered (front ++ new.map (n,·) ++ back) := by
  have same {entry : Int × Text} (member : entry ∈ new.map (n,·)) : entry.1 = n := by
    obtain ⟨_,_,rfl⟩ := List.mem_map.1 member
    rfl
  refine pairwise_exchange ordered ?_ (fun b before c inside => ?_) fun b behind c inside => ?_
  · exact List.pairwise_of_forall_mem_list fun a first b second => by rw [same first,same second]
  · rwa [same inside]
  · rwa [same inside]

theorem untouched_put {front back : Lineage} {line : Text} {issues : List Issue} {issue : Issue}
    (member : issue ∈ issues) (new : List Text) :
    (front ++ new.map (issue.line,·) ++ back).untouched issues =
      (front ++ (issue.line,line) :: back).untouched issues := by
  have struck : ∃ other ∈ issues, other.line = issue.line := ⟨issue,member,rfl⟩
  have none_ : (new.map (issue.line,·)).filter
      (fun entry => issues.all fun other => other.line ≠ entry.1) = [] := by
    simpa [List.filter_map,Function.comp_def] using fun _ _ => struck
  unfold untouched
  rw [List.filter_append,List.filter_append,List.filter_append,none_,List.append_nil,
    List.filter_cons_of_neg (by simpa using struck)]

theorem untouched_sublist (x : Lineage) (issues : List Issue) : (x.untouched issues).Sublist x.lines :=
  List.filter_sublist.map _

end Lineage

namespace Repairer
open Lineage

section
variable (r : Repairer) (code : Text) (issues : List Issue) (s : RepairState)

/-- The pass over a code, from its first issue. -/
def wholePass : Except TalkError Patch × RepairState :=
  (r.pass issues (.ofCode code issues)).run.run s

/-- What a pass comes through: the issues that are ahead, the code, where its lines come from, and the
state. -/
inductive Reaches : List Issue → Patch → Lineage → RepairState → Prop
  | start : Reaches issues (.ofCode code issues) (.ofLines 1 (Text.lines code)) s
  | leave {issue : Issue} {rest : List Issue} {p : Patch} {x : Lineage} {t u : RepairState} :
    Reaches (issue :: rest) p x t → (r.fix p issue).run.run t = (.ok none,u) → Reaches rest p x u
  | put {issue : Issue} {rest : List Issue} {p q : Patch} {x : Lineage} {t u : RepairState} {place : Nat}
    {new : List Text} :
    Reaches (issue :: rest) p x t → (r.fix p issue).run.run t = (.ok (some q),u) →
    p.place? issue = some place → q.lines = p.lines.take place ++ new ++ p.lines.drop (place + 1) →
    Reaches (if q.remaining.isEmpty then [] else rest) q (x.put place new) u

/-- In a pass nothing is left of the line of an issue that is ahead, but something of the lines above. -/
def Strays : Prop :=
  ∃ issue rest p x t, r.Reaches code issues s (issue :: rest) p x t ∧ x.Lost issue.line

/-- A pass is about lines with issues only. Each line that is sent, and each line that is replaced, is the
one of its issue or comes from it, and the lines without issues are kept; where only line feeds end a
line they are lines of the new code, too. -/
structure Contained : Prop where
  asks : ∀ issue rest p x t, r.Reaches code issues s (issue :: rest) p x t →
    let asked := ((r.fix p issue).run.run t).2.asked
    asked = t.asked ∨ ∃ place line, p.place? issue = some place ∧
      x[place]? = some (issue.line,line) ∧ asked = line :: t.asked
  puts : ∀ issue rest p x t, r.Reaches code issues s (issue :: rest) p x t →
    ∀ q u, (r.fix p issue).run.run t = (.ok (some q),u) → ∃ place line new,
      p.place? issue = some place ∧ x[place]? = some (issue.line,line) ∧ p.lines[place]? = some line ∧
      q.lines = p.lines.take place ++ new ++ p.lines.drop (place + 1)
  keeps : ∀ q t, r.wholePass code issues s = (.ok q,t) →
    let kept := (ofLines 1 (Text.lines code)).untouched issues
    kept.Sublist q.lines ∧ (OnlyFeeds code → kept.Sublist (Text.lines q.code))

end

variable {r : Repairer} {code : Text} {issues : List Issue} {s : RepairState}

/-- From every point that a pass comes through it goes on to the same end. -/
theorem Reaches.pass_eq {ahead : List Issue} {p : Patch} {x : Lineage} {t : RepairState}
    (reaches : r.Reaches code issues s ahead p x t) :
    r.wholePass code issues s = (r.pass ahead p).run.run t := by
  induction reaches with
  | start => rfl
  | leave _ left ih =>
    rw [ih,pass,run_bind,left]
  | put _ put _ _ ih =>
    rw [ih,pass,run_bind,put]
    dsimp only
    split
    · rfl
    · rfl

theorem run_fix_none {p : Patch} {issue : Issue} (none_ : p.place? issue = none) :
    (r.fix p issue).run.run s = (.ok none,s) := by
  unfold fix
  rw [none_]
  rfl

/-- The line at the place of an issue is the one that is sent. -/
theorem asked_fix {p : Patch} {issue : Issue} {place : Nat} {line : Text}
    (here : p.place? issue = some place) (at_ : p.lines[place]? = some line) :
    ((r.fix p issue).run.run s).2.asked = line :: s.asked := by
  unfold fix
  rw [here]
  dsimp only
  rw [run_bind,run_modify]
  dsimp only
  rw [run_bind,run_requestFix,at_]
  dsimp only [Option.getD_some]
  generalize (r.session.convert (instruction r.session.language.target) line
    (context p.lines place issue) (s.history.getD r.session.newHistory)).run.run s.line = answer
  obtain ⟨result,talked⟩ := answer
  cases result with
  | error e => cases e <;> rfl
  | ok found =>
    dsimp only
    cases p.substitute? place found.1 with
    | none => rfl
    | some q => rfl

theorem put_of_fix {p q : Patch} {issue : Issue} {t : RepairState}
    (fixed : (r.fix p issue).run.run s = (.ok (some q),t)) :
    ∃ place line replacement, p.place? issue = some place ∧ p.lines[place]? = some line ∧
      q.lines = p.lines.take place ++ Patch.replacementLines replacement line ++ p.lines.drop (place + 1) ∧
      q.offset = p.offset + (Patch.replacementLines replacement line).length - 1 := by
  unfold fix at fixed
  cases here : p.place? issue with
  | none =>
    rw [here] at fixed
    cases fixed
  | some place =>
    rw [here] at fixed
    obtain ⟨_,_,_,fixed⟩ := ok_of_run_bind fixed
    obtain ⟨found,u,_,fixed⟩ := ok_of_run_bind fixed
    cases found with
    | none => cases fixed
    | some replacement =>
      dsimp only at fixed
      cases substituted : p.substitute? place replacement with
      | none =>
        rw [substituted] at fixed
        cases fixed
      | some c =>
        rw [substituted] at fixed
        dsimp only at fixed
        rw [run_map,run_check] at fixed
        cases fixed
        obtain ⟨line,at_,shape,offset⟩ := Patch.substitute?_eq_some substituted
        exact ⟨place,line,replacement,rfl,at_,shape,offset⟩

/-- Issues of lines of a code, from the first line to the last. -/
structure Listed (code : Text) (issues : List Issue) : Prop where
  sorted : issues.Pairwise (·.line ≤ ·.line)
  within : ∀ issue ∈ issues, 1 ≤ issue.line ∧ issue.line ≤ (Text.lines code).length

/-- The lineage belongs to the code, and the target of an issue is the number of the lines that are
left of those up to its own. -/
structure Tracked (issues ahead : List Issue) (p : Patch) (x : Lineage) : Prop where
  lines : x.lines = p.lines
  ordered : x.Ordered
  sorted : ahead.Pairwise (·.line ≤ ·.line)
  inside : ∀ issue ∈ ahead, issue ∈ issues ∧ 1 ≤ issue.line
  target : ∀ issue ∈ ahead, (x.upTo issue.line : Int) = issue.line + p.offset

theorem tracked_ofCode (listed : Listed code issues) :
    Tracked issues issues (.ofCode code issues) (.ofLines 1 (Text.lines code)) where
  lines := lines_ofLines 1 (Text.lines code)
  ordered := ordered_ofLines 1 (Text.lines code)
  sorted := listed.sorted
  inside issue member := ⟨member,(listed.within issue member).1⟩
  target issue member := by
    have within := listed.within issue member
    rw [upTo_ofLines]
    change _ = issue.line + 0
    omega

section
variable {issue : Issue} {rest ahead : List Issue} {p q : Patch} {x : Lineage} {place : Nat}

theorem Tracked.tail (tracked : Tracked issues (issue :: rest) p x) : Tracked issues rest p x where
  lines := tracked.lines
  ordered := tracked.ordered
  sorted := tracked.sorted.tail
  inside other member := tracked.inside other (by simp [member])
  target other member := tracked.target other (by simp [member])

theorem Tracked.nil (tracked : Tracked issues ahead p x) : Tracked issues [] p x where
  lines := tracked.lines
  ordered := tracked.ordered
  sorted := .nil
  inside := by simp
  target := by simp

/-- The place of an issue is the last of the lines that are left of those up to its own. -/
theorem Tracked.place?_iff (tracked : Tracked issues (issue :: rest) p x) :
    p.place? issue = some place ↔ place + 1 = x.upTo issue.line := by
  have positive := (tracked.inside issue (by simp)).2
  have target := tracked.target issue (by simp)
  have fits : x.upTo issue.line ≤ p.lines.length := by
    rw [← tracked.lines,length_lines]
    exact List.countP_le_length
  unfold Patch.place?
  rw [← target]
  by_cases none_ : x.upTo issue.line = 0
  · simp [none_]
  · have inside : ¬ (issue.line < 1 ∨ (x.upTo issue.line : Int) < 1 ∨
        (p.lines.length : Int) < x.upTo issue.line) := by omega
    simp only [Bool.or_eq_true,decide_eq_true_eq,or_assoc,if_neg inside,Option.some.injEq]
    omega

theorem Tracked.cut (tracked : Tracked issues (issue :: rest) p x) (here : p.place? issue = some place) :
    ∃ (front : Lineage) (n : Int) (line : Text) (back : Lineage), x = front ++ (n,line) :: back ∧
      front.length = place ∧ n ≤ issue.line ∧ (∀ entry ∈ front, entry.1 ≤ n) ∧
      (∀ entry ∈ back, issue.line < entry.1) ∧ p.lines = front.lines ++ line :: back.lines ∧
      p.lines[place]? = some line := by
  obtain ⟨front,n,line,back,rfl,rfl,below,order,behind⟩ :=
    tracked.ordered.cut (tracked.place?_iff.1 here)
  have shape : p.lines = front.lines ++ line :: back.lines := by
    rw [← tracked.lines,Lineage.lines_append,lines_cons]
  refine ⟨front,n,line,back,rfl,rfl,below,order,behind,shape,?_⟩
  rw [shape,← length_lines front]
  simp

/-- A replacement keeps to the account, for all issues that come after its own. -/
theorem Tracked.put (tracked : Tracked issues (issue :: rest) p x) (here : p.place? issue = some place)
    {new : List Text} (put : q.lines = p.lines.take place ++ new ++ p.lines.drop (place + 1))
    (offset : q.offset = p.offset + new.length - 1) : Tracked issues rest q (x.put place new) := by
  obtain ⟨front,n,line,back,rfl,rfl,below,_,_,shape,_⟩ := tracked.cut here
  have later := List.pairwise_cons.1 tracked.sorted
  rw [put_append]
  refine ⟨?_,tracked.ordered.put new,later.2,tracked.tail.inside,fun other member => ?_⟩
  · rw [put,shape,← length_lines front]
    simp
  · have within : n ≤ other.line := Int.le_trans below (later.1 other member)
    have before := tracked.tail.target other member
    rw [upTo_put within,before,offset]
    omega

/-- As long as something is left of the line of an issue its place is there. -/
theorem Tracked.own (tracked : Tracked issues (issue :: rest) p x) (here : p.place? issue = some place)
    (left : ¬ x.Lost issue.line) :
    ∃ (front : Lineage) (line : Text) (back : Lineage), x = front ++ (issue.line,line) :: back ∧
      front.length = place ∧ p.lines[place]? = some line := by
  obtain ⟨front,n,line,back,rfl,rfl,below,order,behind,_,at_⟩ := tracked.cut here
  -- else the issue's own line would be before this one, or behind it among the later lines
  have same : n = issue.line := by
    by_contra other
    refine left ⟨fun entry member => ?_,(n,line),by simp,by omega⟩
    rcases List.mem_append.1 member with before | (_ | ⟨_,later⟩)
    · have := order entry before
      omega
    · exact other
    · have := behind entry later
      omega
  subst same
  exact ⟨front,line,back,rfl,rfl,at_⟩

theorem put_shape {t u : RepairState} {new : List Text}
    (fixed : (r.fix p issue).run.run t = (.ok (some q),u)) (here : p.place? issue = some place)
    (put : q.lines = p.lines.take place ++ new ++ p.lines.drop (place + 1)) :
    ∃ line replacement, p.lines[place]? = some line ∧ new = Patch.replacementLines replacement line ∧
      q.offset = p.offset + new.length - 1 := by
  obtain ⟨same,line,replacement,at_,found,shape,offset⟩ := put_of_fix fixed
  rw [here] at at_
  cases at_
  rw [put] at shape
  have new_ := List.append_cancel_left (List.append_cancel_right shape)
  subst new_
  exact ⟨line,replacement,found,rfl,offset⟩

end

section
variable {issue : Issue} {rest ahead : List Issue} {p : Patch} {x : Lineage} {t : RepairState}

theorem Reaches.tracked (listed : Listed code issues) (reaches : r.Reaches code issues s ahead p x t) :
    Tracked issues ahead p x := by
  induction reaches with
  | start => exact tracked_ofCode listed
  | leave _ _ ih => exact ih.tail
  | put _ fixed here put ih =>
    obtain ⟨line,replacement,_,_,offset⟩ := put_shape fixed here put
    have later := ih.put here put offset
    split
    · exact later.nil
    · exact later

/-- A pass comes to its end, or an error ends it on the way. -/
theorem exists_reaches {result : Except TalkError Patch} {u : RepairState}
    (reaches : r.Reaches code issues s ahead p x t) (ran : (r.pass ahead p).run.run t = (result,u)) :
    (∃ q y, result = .ok q ∧ r.Reaches code issues s [] q y u) ∨
      ∃ issue rest q y v e, result = .error e ∧ r.Reaches code issues s (issue :: rest) q y v ∧
        (r.fix q issue).run.run v = (.error e,u) := by
  induction ahead generalizing p x t with
  | nil =>
    cases ran
    exact .inl ⟨p,x,rfl,reaches⟩
  | cons issue rest ih =>
    rw [pass,run_bind] at ran
    cases fixed : (r.fix p issue).run.run t with
    | mk found v =>
      rw [fixed] at ran
      cases found with
      | error e =>
        cases ran
        exact .inr ⟨issue,rest,p,x,t,e,rfl,reaches,fixed⟩
      | ok found =>
        cases found with
        | none => exact ih (.leave reaches fixed) ran
        | some q =>
          obtain ⟨place,line,replacement,here,_,put,_⟩ := put_of_fix fixed
          -- a code without issues leaves nothing ahead, and the pass ends there, too
          have later := reaches.put fixed here put
          dsimp only at ran
          split at later
          · rename_i clean
            rw [if_pos clean] at ran
            cases ran
            exact .inl ⟨q,_,rfl,later⟩
          · rename_i open_
            rw [if_neg open_] at ran
            exact ih later ran

end

section
variable (straight : ¬ r.Strays code issues s) {ahead : List Issue} {p : Patch} {x : Lineage}
  {t : RepairState}

include straight in
theorem Reaches.untouched_eq (listed : Listed code issues)
    (reaches : r.Reaches code issues s ahead p x t) :
    x.untouched issues = (ofLines 1 (Text.lines code)).untouched issues := by
  induction reaches with
  | start => rfl
  | leave _ _ ih => exact ih
  | put before _ here _ ih =>
    -- the line that goes has an issue, and so have the lines that come for it
    have tracked := before.tracked listed
    obtain ⟨front,line,back,rfl,rfl,_⟩ := tracked.own here fun lost => straight ⟨_,_,_,_,_,before,lost⟩
    rw [put_append,untouched_put (tracked.inside _ (by simp)).1,ih]

theorem Reaches.apart (feeds : OnlyFeeds code) (reaches : r.Reaches code issues s ahead p x t) :
    Apart p.lines := by
  induction reaches with
  | start => exact feeds.feedLines.apart
  | leave _ _ ih => exact ih
  | put before fixed here put ih =>
    obtain ⟨line,replacement,found,rfl,_⟩ := put_shape fixed here put
    rw [put]
    obtain ⟨inside,fed⟩ := Patch.apart_replacementLines replacement line
      (ih.ends line (List.mem_of_getElem? found))
    exact ih.exchange found inside fed

/-- Where no two issues are on one line, each issue that is ahead still finds its line. -/
theorem Reaches.present (listed : Listed code issues) (distinct : issues.Pairwise (·.line ≠ ·.line))
    (reaches : r.Reaches code issues s ahead p x t) :
    ahead.Pairwise (·.line < ·.line) ∧ ∀ issue ∈ ahead, ∃ line, (issue.line,line) ∈ x := by
  induction reaches with
  | start =>
    refine ⟨(listed.sorted.and distinct).imp fun ⟨least,other⟩ => by omega,fun issue member => ?_⟩
    have within := listed.within issue member
    exact exists_mem_ofLines within.1 (by omega)
  | leave _ _ ih => exact ⟨ih.1.tail,fun issue member => ih.2 issue (by simp [member])⟩
  | @put issue rest _ _ _ _ _ _ new before _ here _ ih =>
    obtain ⟨front,n,line,back,rfl,rfl,below,_⟩ := (before.tracked listed).cut here
    obtain ⟨above,later⟩ := List.pairwise_cons.1 ih.1
    have kept : ∀ other ∈ rest, ∃ line, (other.line,line) ∈ front ++ new.map (n,·) ++ back := by
      intro other member
      obtain ⟨own,inside⟩ := ih.2 other (List.mem_cons_of_mem _ member)
      have apart := above other member
      have different : other.line ≠ n := by omega
      refine ⟨own,?_⟩
      simp only [List.mem_append,List.mem_cons,Prod.mk.injEq,different,false_and,false_or] at inside
      rcases inside with first | last
      · simp [first]
      · simp [last]
    rw [put_append]
    split
    · exact ⟨.nil,by simp⟩
    · exact ⟨later,kept⟩

/-- What is kept are lines of the code, and remain so. -/
theorem untouched_lines {q : Patch} {y : Lineage} (apart : Apart q.lines) (same : y.lines = q.lines)
    (kept : y.untouched issues = (ofLines 1 (Text.lines code)).untouched issues) :
    (y.untouched issues).Sublist (Text.lines q.code) := by
  have single : ∀ line ∈ y.untouched issues, Text.lines line = [line] := by
    rw [kept]
    intro line member
    have inside := (untouched_sublist _ issues).subset member
    rw [lines_ofLines] at inside
    obtain ⟨front,back,shape⟩ := List.append_of_mem inside
    have parts : Text.lines code = front ++ [line] ++ back := by simp [shape]
    simpa using lines_flatten_of_within parts
  have whole : (y.untouched issues).flatMap Text.lines = y.untouched issues := by
    rw [List.flatMap_congr single]
    simp
  rw [Patch.code,apart.lines_flatten,← same,← whole]
  exact (untouched_sublist y issues).flatMap _

end

theorem Contained.lines_kept (contained : r.Contained code issues s) (feeds : OnlyFeeds code) {new : Text}
    (ends : (r.wholePass code issues s).1.toOption.map Patch.code = some new) :
    ((ofLines 1 (Text.lines code)).untouched issues).Sublist (Text.lines new) := by
  cases passed : r.wholePass code issues s with
  | mk found t =>
    rw [passed] at ends
    cases found with
    | error e => cases ends
    | ok q =>
      cases ends
      exact (contained.keeps q t passed).2 feeds

theorem listed_issues (symbols : Symbols) (code : Text) : Listed code (symbols.issues code) where
  sorted := by
    unfold Symbols.issues
    refine (Ordered.pairwise_sort (fun a b => ?_) (fun a b c => ?_) _).imp of_decide_eq_true
    · simp only [Bool.or_eq_true,decide_eq_true_eq]
      omega
    · simp only [decide_eq_true_eq]
      omega
  within issue member := by
    obtain ⟨t,n,found,shape⟩ := Symbols.mem_issues member
    obtain ⟨i,line,rfl,at_,_⟩ := Symbols.mem_locate found
    have bound := (List.getElem?_eq_some_iff.1 at_).1
    have number : issue.line = (i + 1 : Nat) := by
      rcases shape with rfl | rfl
      · rfl
      · rfl
    omega

/-- A pass over the issues of a code is about lines with issues exactly if it does not stray. Where no
two issues are on one line it does not. -/
theorem contained_iff (r : Repairer) (symbols : Symbols) (code : Text) (s : RepairState) :
    let issues := symbols.issues code
    (r.Contained code issues s ↔ ¬ r.Strays code issues s) ∧
      (issues.Pairwise (·.line ≠ ·.line) → ¬ r.Strays code issues s) := by
  intro issues
  have listed := listed_issues symbols code
  have own (straight : ¬ r.Strays code issues s) issue rest p x t
      (reaches : r.Reaches code issues s (issue :: rest) p x t) place
      (here : p.place? issue = some place) :
      ∃ line, x[place]? = some (issue.line,line) ∧ p.lines[place]? = some line := by
    obtain ⟨front,line,back,rfl,rfl,at_⟩ := (reaches.tracked listed).own here
      fun lost => straight ⟨issue,rest,p,x,t,reaches,lost⟩
    exact ⟨line,by simp,at_⟩
  refine ⟨⟨?_,fun straight => ⟨?_,?_,?_⟩⟩,?_⟩
  · rintro contained ⟨issue,rest,p,x,t,reaches,none_,entry,member,above⟩
    have tracked := reaches.tracked listed
    have some_ : 0 < x.upTo issue.line := List.countP_pos_iff.2 ⟨entry,member,by simp; omega⟩
    have here : p.place? issue = some (x.upTo issue.line - 1) := tracked.place?_iff.2 (by omega)
    obtain ⟨_,_,line,_,_,_,_,_,_,_,at_⟩ := tracked.cut here
    have asked := asked_fix (r := r) (s := t) here at_
    rcases contained.asks issue rest p x t reaches with none_asked | ⟨place,_,_,own,_⟩
    · simp [asked] at none_asked
    · exact none_ _ (List.mem_of_getElem? own) rfl
  · intro issue rest p x t reaches
    cases here : p.place? issue with
    | none =>
      rw [run_fix_none here]
      exact .inl rfl
    | some place =>
      obtain ⟨line,own,at_⟩ := own straight issue rest p x t reaches place here
      exact .inr ⟨place,line,rfl,own,asked_fix here at_⟩
  · intro issue rest p x t reaches q u fixed
    obtain ⟨place,_,replacement,here,_,put,_⟩ := put_of_fix fixed
    obtain ⟨line,own,at_⟩ := own straight issue rest p x t reaches place here
    exact ⟨place,line,_,here,own,at_,put⟩
  · intro q t ran
    rcases exists_reaches .start ran with ⟨_,y,same,reaches⟩ | ⟨_,_,_,_,_,_,failed,_⟩
    · cases same
      have tracked := reaches.tracked listed
      have kept := reaches.untouched_eq straight listed
      dsimp only
      rw [← kept]
      refine ⟨?_,fun feeds => untouched_lines (reaches.apart feeds) tracked.lines kept⟩
      rw [← tracked.lines]
      exact untouched_sublist y issues
    · cases failed
  · rintro distinct ⟨issue,rest,p,x,t,reaches,none_,_⟩
    obtain ⟨line,own⟩ := (reaches.present listed distinct).2 issue (by simp)
    exact none_ _ own rfl

/-- The first line is to be deleted, and what comes next is a line of its own. -/
def deleting : Session where
  service := {
    answer := fun past _ => { outcome := .reply (.text (match past with
      | [] => "<code></code>"
      | _ => "<code>y</code>")) }
    reachable := .reply (.text "yes") }
  language := {
    target := "plain", inputExtension := ".src", outputExtension := ".out", prompt := "Translate." }
  run := {}

def straying : Repairer := ⟨deleting,Symbols.issues .braces,1⟩

/-- A repair of a code before its first pass. -/
def begun (r : Repairer) (code : Text) : RepairState :=
  { line := {}, history := none, best := (code,r.issues code) }

theorem contained_iff_lines :
    let code : Text := "\x7d\nx\n\x7d\n"
    let issues := Symbols.braces.issues code
    issues.Pairwise (·.line ≠ ·.line) ∧ straying.Contained code issues (begun straying code) := by
  intro code issues
  have distinct : issues.Pairwise (·.line ≠ ·.line) := by decide +kernel
  obtain ⟨exact_,straight⟩ := contained_iff straying .braces code (begun straying code)
  exact ⟨distinct,exact_.2 (straight distinct)⟩

/-- Two issues on the second line, and one on the third. -/
def twice : Text := "x\n\x7d\x7d\n\x7d\n"

/-- The second line is deleted, and its second issue is looked for one line above. -/
theorem not_contained_deleting :
    (straying.issues twice).map Issue.line = [2,2,3] ∧
      (straying.wholePass twice (straying.issues twice) (begun straying twice)).2.asked =
        ["\x7d\n","x\n","\x7d\x7d\n"] ∧
      (straying.wholePass twice (straying.issues twice) (begun straying twice)).1.toOption.map
        Patch.code = some "y\ny\n" ∧
      ¬ straying.Contained twice (straying.issues twice) (begun straying twice) := by
  have ends : (straying.wholePass twice (straying.issues twice) (begun straying twice)).1.toOption.map
      Patch.code = some "y\ny\n" := by decide +kernel
  have feeds : OnlyFeeds twice := by decide +kernel
  refine ⟨by decide +kernel,by decide +kernel,ends,fun contained => ?_⟩
  exact absurd (contained.lines_kept feeds ends) (by decide +kernel)

end Repairer

end Recast
