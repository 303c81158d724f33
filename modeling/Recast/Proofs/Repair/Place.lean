import Recast.Proofs.Repair.Lineage
import Recast.Proofs.Run.Bundle
import Recast.Proofs.Target.Walk
import Recast.Target.Registry

/-! The line that an issue is about. A parser outside counts line feeds, a repair counts lines; the two agree
on the line of an issue exactly if no other break stands on that line or on one before it. -/
namespace Recast
open Text

namespace Text

/-- A line and the text before it. -/
def lineAt (ls : List Text) (i : Nat) : Option (Text × Text) :=
  ls[i]?.map fun line => ((ls.take i).flatten,line)

theorem lines_eq_flatMap (s : Text) : lines s = (feedLines s).flatMap lines := by
  generalize held : feedLines s = ls
  induction ls generalizing s with
  | nil =>
    rw [feedLines_eq_nil held]
    rfl
  | cons l ls ih =>
    obtain ⟨_,ended,t,rfl,later⟩ := feedLines_cons held
    rw [List.flatMap_cons,← ih t later]
    rcases ended with rfl | ended
    · rw [feedLines_eq_nil later,List.append_nil]
      exact (List.append_nil _).symm
    · rcases ended with rfl | fed
      · rfl
      · exact Fed.lines_append fed t

/-- A text is one line if no break stands before its last character. -/
theorem lines_eq_self_iff {s : Text} (filled : s ≠ []) (plain : '\r' ∉ s) :
    lines s = [s] ↔ Unbroken s.dropLast := by
  constructor
  · intro single
    have lined := lined_lines s
    rw [single] at lined
    cases lined with
    | last unbroken _ => exact fun c member => unbroken c ((List.dropLast_sublist _).subset member)
    | both _ _ => exact absurd (by simp) plain
    | @one body c _ unbroken _ _ _ => rwa [List.dropLast_concat]
  · intro unbroken
    have shape := List.dropLast_concat_getLast filled
    generalize s.dropLast = body at *
    generalize s.getLast filled = c at shape
    subst shape
    suffices lined : Lined [body ++ [c]] by simpa using lined.lines_flatten
    cases breaks : isBreak c with
    | true => exact .one unbroken breaks (fun _ => by simp) .nil
    | false =>
      refine .last (fun d member => ?_) (by simp)
      rcases List.mem_append.1 member with inside | last
      · exact unbroken d inside
      · rwa [List.mem_singleton.1 last]

section Finer
variable {ls : List Text}

theorem length_le_flatMap_lines (filled : ∀ line ∈ ls, line ≠ []) :
    ls.length ≤ (ls.flatMap lines).length := by
  induction ls with
  | nil => simp
  | cons line ls ih =>
    have one := List.length_pos_iff.2 (lines_ne_nil (filled line (by simp)))
    have rest := ih fun other member => filled other (by simp [member])
    rw [List.flatMap_cons,List.length_append,List.length_cons]
    omega

/-- Texts that have no more lines than there are texts are single lines. -/
theorem single_of_length_le (filled : ∀ line ∈ ls, line ≠ [])
    (size : (ls.flatMap lines).length ≤ ls.length) : ∀ line ∈ ls, lines line = [line] := by
  induction ls with
  | nil => simp
  | cons line ls ih =>
    have filledRest := fun other member => filled other (List.mem_cons_of_mem line member)
    have one := List.length_pos_iff.2 (lines_ne_nil (filled line (by simp)))
    have rest := length_le_flatMap_lines filledRest
    rw [List.flatMap_cons,List.length_append,List.length_cons] at size
    rintro other (_ | ⟨_,later⟩)
    · obtain ⟨first,only⟩ := List.length_eq_one_iff.1 (show (lines line).length = 1 by omega)
      have whole := flatten_lines line
      rw [only,List.flatten_singleton] at whole
      rw [only,whole]
    · exact ih filledRest (by omega) other later

theorem flatMap_lines_of_single (single : ∀ line ∈ ls, lines line = [line]) : ls.flatMap lines = ls := by
  induction ls with
  | nil => rfl
  | cons line ls ih =>
    rw [List.flatMap_cons,single line (by simp),ih fun other member => single other (by simp [member])]
    rfl

theorem lineAt_append {front : List Text} (back : List Text) {i : Nat} (inside : i < front.length) :
    lineAt (front ++ back) i = lineAt front i := by
  unfold lineAt
  rw [List.getElem?_append_left inside,List.take_append_of_le_length (Nat.le_of_lt inside)]

theorem eq_nil_of_flatten (filled : ∀ line ∈ ls, line ≠ []) (nothing : ls.flatten = []) : ls = [] := by
  cases ls with
  | nil => rfl
  | cons line ls => exact absurd (List.append_eq_nil_iff.1 nothing).1 (filled line (by simp))

/-- The same line at the same place ends the same text. -/
theorem flatten_take_of_lineAt {ms : List Text} {i : Nat} (here : i < ms.length) (inside : i < ls.length)
    (same : lineAt ms i = lineAt ls i) : (ms.take (i + 1)).flatten = (ls.take (i + 1)).flatten := by
  rw [lineAt,lineAt,List.getElem?_eq_getElem here,List.getElem?_eq_getElem inside] at same
  obtain ⟨before,at_⟩ := Prod.mk.inj (Option.some.inj same)
  rw [List.take_succ_eq_append_getElem here,List.take_succ_eq_append_getElem inside,List.flatten_append,
    List.flatten_append,before,at_]

/-- A line stands at its place among the lines of the texts exactly if all texts up to it are single lines. -/
theorem lineAt_flatMap_iff (filled : ∀ line ∈ ls, line ≠ []) {i : Nat} (bound : i ≤ ls.length) :
    lineAt (ls.flatMap lines) i = lineAt ls i ↔ ∀ line ∈ ls.take (i + 1), lines line = [line] := by
  have split : ls.flatMap lines = (ls.take (i + 1)).flatMap lines ++ (ls.drop (i + 1)).flatMap lines := by
    rw [← List.flatMap_append,List.take_append_drop]
  have filledFront : ∀ line ∈ ls.take (i + 1), line ≠ [] :=
    fun line member => filled line (List.mem_of_mem_take member)
  have size := length_le_flatMap_lines filledFront
  rw [List.length_take] at size
  constructor
  · intro same
    apply single_of_length_le filledFront
    rw [List.length_take]
    by_cases last : i = ls.length
    · -- Behind the last text there is no line, so there are not more lines than texts.
      have none_ : lineAt ls i = none := by simp [lineAt,last]
      rw [none_,lineAt,Option.map_eq_none_iff,List.getElem?_eq_none_iff,split,List.length_append] at same
      omega
    · have inside : i < ls.length := by omega
      rw [split,lineAt_append _ (by omega)] at same
      have filledFound : ∀ line ∈ (ls.take (i + 1)).flatMap lines, line ≠ [] := by
        intro line member
        obtain ⟨text,_,inner⟩ := List.mem_flatMap.1 member
        exact ne_nil_of_mem_lines inner
      have front := flatten_flatMap_lines (ls.take (i + 1))
      generalize (ls.take (i + 1)).flatMap lines = found at *
      have upTo := flatten_take_of_lineAt (by omega) inside same
      have whole := congrArg List.flatten (List.take_append_drop (i + 1) found)
      rw [List.flatten_append,upTo,front] at whole
      have none_ := eq_nil_of_flatten (fun line member => filledFound line (List.mem_of_mem_drop member))
        (List.append_right_eq_self.1 whole)
      have few := List.drop_eq_nil_iff.1 none_
      omega
  · intro single
    rw [split,flatMap_lines_of_single single]
    by_cases last : i = ls.length
    · have all : ls.drop (i + 1) = [] := List.drop_eq_nil_iff.2 (by omega)
      have whole := List.take_append_drop (i + 1) ls
      rw [all,List.append_nil] at whole
      rw [all,whole]
      simp
    · have inside : i < (ls.take (i + 1)).length := by
        rw [List.length_take]
        omega
      rw [lineAt_append _ inside,← lineAt_append (ls.drop (i + 1)) inside,List.take_append_drop]

end Finer

/-- Each line feed ends a line. -/
theorem count_feed_le (s : Text) : s.count '\n' ≤ (feedLines s).length := by
  fun_induction feedLines s with
  | case1 => simp
  | case2 r ih => simpa using ih
  | case3 c r other held ih =>
    rw [held] at ih
    rw [List.count_cons_of_ne other]
    exact Nat.le_succ_of_le ih
  | case4 c r other l ls held ih =>
    rw [held] at ih
    rw [List.count_cons_of_ne other]
    exact ih

theorem feedLines_filled {s line : Text} (member : line ∈ feedLines s) : line ≠ [] := by
  rintro rfl
  obtain ⟨front,back,held⟩ := List.append_of_mem member
  have further : feedLines s = (front ++ [[]]) ++ back := by simp [held]
  have single := feedLines_flatten further
  have shorter := feedLines_flatten held
  rw [List.flatten_append,List.flatten_singleton,List.append_nil,shorter] at single
  simpa using congrArg List.length single

end Text

namespace Node

/-- The nodes of a tree. -/
inductive Within : Node → Node → Prop where
  | self (n : Node) : Within n n
  | child {d c n : Node} : c ∈ n.children → Within d c → Within d n

mutual

theorem exists_of_mem_issues (code : Text) (issue : Issue) :
    (n : Node) → issue ∈ n.issues code → ∃ d, Within d n ∧ issue.line = d.line
  | ⟨kind,start,stop,row,named,missing,faulty,field,children⟩,member => by
    rw [issues] at member
    split at member
    · rw [List.mem_singleton.1 member]
      exact ⟨_,.self _,rfl⟩
    · split at member
      · rw [List.mem_singleton.1 member]
        exact ⟨_,.self _,rfl⟩
      · split at member
        · obtain ⟨c,inside,d,deeper,same⟩ := exists_of_mem_issuesOfAll code issue children member
          exact ⟨d,.child inside deeper,same⟩
        · cases member

theorem exists_of_mem_issuesOfAll (code : Text) (issue : Issue) :
    (ns : List Node) → issue ∈ issuesOfAll code ns → ∃ n ∈ ns, ∃ d, Within d n ∧ issue.line = d.line
  | [],member => by cases member
  | n :: ns,member => by
    rw [issuesOfAll] at member
    rcases List.mem_append.1 member with first | later
    · exact ⟨n,by simp,exists_of_mem_issues code issue n first⟩
    · obtain ⟨c,inside,found⟩ := exists_of_mem_issuesOfAll code issue ns later
      exact ⟨c,by simp [inside],found⟩

end

end Node

/-- An issue with a line was told about a line. -/
theorem Complaint.of_counted {complaint : Complaint} (counted : 1 ≤ complaint.issue.line) :
    ∃ message n, complaint = .malformed message (some n) ∧ complaint.issue.line = n := by
  have unknown : ¬ 1 ≤ (-1 : Int) := by omega
  cases complaint with
  | unreadable message => exact absurd counted unknown
  | malformed message line =>
    cases line with
    | none => exact absurd counted unknown
    | some n =>
      have some_ : n ≠ 0 := by
        rintro rfl
        exact absurd counted unknown
      exact ⟨message,n,rfl,if_neg some_⟩

theorem Node.exists_of_mem_allIssues {code : Text} {root : Node} {issue : Issue}
    (reported : issue ∈ root.allIssues code) (counted : 1 ≤ issue.line) :
    ∃ d, Within d root ∧ issue.line = d.line := by
  rw [allIssues_eq] at reported
  cases faulty : root.faulty with
  | true =>
    rw [verdict_faulty faulty] at reported
    by_cases none_ : root.issues code = []
    · rw [if_pos none_] at reported
      rw [List.mem_singleton.1 reported] at counted
      exact absurd counted (by decide)
    · rw [if_neg none_] at reported
      exact exists_of_mem_issues code issue root reported
  | false =>
    rw [verdict_fine faulty] at reported
    cases reported

/-- Parsers that count line feeds: what they say is wrong stands behind as many as they tell. -/
structure Parsers.Numbered (parsers : Parsers) : Prop where
  module : ∀ {code : Text} {message : Option Text} {n : Int}, '\r' ∉ code →
    parsers.module.complaint? code = some (.malformed message (some n)) →
      ∃ before, before <+: code ∧ n = before.count '\n' + 1
  tree : ∀ {code : Text} {n : Node}, '\r' ∉ code → n.Within (parsers.tree code) →
    ∃ before, before <+: code ∧ n.row = before.count '\n'

theorem Parsers.Numbered.issue_line {parsers : Parsers} (numbered : parsers.Numbered) {dialect : Dialect}
    (own : dialect ≠ .blocks) {code : Text} (plain : '\r' ∉ code) {issue : Issue}
    (reported : issue ∈ (dialect.target parsers).issues code) (counted : 1 ≤ issue.line) :
    ∃ before, before <+: code ∧ issue.line = before.count '\n' + 1 := by
  cases dialect with
  | blocks => exact absurd rfl own
  | modules =>
    change issue ∈ ((parsers.module.complaint? code).map Complaint.issue).toList at reported
    obtain ⟨complaint,told,rfl⟩ := Option.map_eq_some_iff.1 (Option.mem_toList.1 reported)
    obtain ⟨message,n,rfl,same⟩ := Complaint.of_counted counted
    obtain ⟨before,begins,number⟩ := numbered.module plain told
    exact ⟨before,begins,same.trans number⟩
  | packages =>
    change issue ∈ (parsers.tree code).allIssues code at reported
    obtain ⟨d,inside,same⟩ := Node.exists_of_mem_allIssues reported counted
    obtain ⟨before,begins,row⟩ := numbered.tree plain inside
    refine ⟨before,begins,?_⟩
    rw [same,Node.line,row]

namespace Patch

/-- The line that an issue is about in a pass, with the text before it. -/
def target? (p : Patch) (issue : Issue) : Option (Text × Text) := (p.place? issue).bind (lineAt p.lines)

theorem target?_ofCode (code : Text) (issues : List Issue) {issue : Issue} (counted : 1 ≤ issue.line) :
    (ofCode code issues).target? issue = lineAt (Text.lines code) (issue.line - 1).toNat := by
  unfold target? place? ofCode
  dsimp only
  rw [Int.add_zero]
  by_cases inside : issue.line ≤ (Text.lines code).length
  · rw [if_neg (by simp only [Bool.or_eq_true,decide_eq_true_eq]; omega)]
    rfl
  · rw [if_pos (by simp only [Bool.or_eq_true,decide_eq_true_eq]; omega)]
    have behind : (Text.lines code)[(issue.line - 1).toNat]? = none := List.getElem?_eq_none_iff.2 (by omega)
    rw [lineAt,behind]
    rfl

theorem place?_of_target? {p : Patch} {issue : Issue} {before line : Text}
    (target : p.target? issue = some (before,line)) : ∃ place, p.place? issue = some place ∧
      p.lines[place]? = some line ∧ (p.lines.take place).flatten = before := by
  obtain ⟨place,here,found⟩ := Option.bind_eq_some_iff.1 target
  obtain ⟨other,at_,same⟩ := Option.map_eq_some_iff.1 found
  obtain ⟨rfl,rfl⟩ := Prod.mk.inj same
  exact ⟨place,here,at_,rfl⟩

theorem place?_lt {p : Patch} {issue : Issue} {place : Nat} (here : p.place? issue = some place) :
    place < p.lines.length := by
  unfold place? at here
  dsimp only at here
  split at here
  · cases here
  · rename_i inside
    simp only [Bool.or_eq_true,decide_eq_true_eq,not_or] at inside
    have same := Option.some.inj here
    omega

end Patch

namespace Repairer
variable (r : Repairer) {p : Patch} {issue : Issue} (s : RepairState)

/-- Nothing is sent about an issue without a line. -/
theorem fix_of_target?_none (none_ : p.target? issue = none) :
    (r.fix p issue).run.run s = (.ok none,s) := by
  apply run_fix_none
  cases here : p.place? issue with
  | none => rfl
  | some place =>
    have bound := Patch.place?_lt here
    simp [Patch.target?,here,lineAt,List.getElem?_eq_getElem bound] at none_

/-- The line of an issue is sent, and what comes back takes its place. -/
theorem fix_of_target? {before line : Text} (target : p.target? issue = some (before,line)) :
    ((r.fix p issue).run.run s).2.asked = line :: s.asked ∧
      ∃ after, p.code = before ++ line ++ after ∧ ∀ q t, (r.fix p issue).run.run s = (.ok (some q),t) →
        ∃ replacement, q.code = before ++ (Patch.replacementLines replacement line).flatten ++ after := by
  obtain ⟨place,here,at_,rfl⟩ := Patch.place?_of_target? target
  refine ⟨asked_fix here at_,(p.lines.drop (place + 1)).flatten,?_,fun q t fixed => ?_⟩
  · obtain ⟨bound,rfl⟩ := List.getElem?_eq_some_iff.1 at_
    have whole := List.take_append_drop place p.lines
    rw [List.drop_eq_getElem_cons bound] at whole
    have joined := congrArg List.flatten whole
    rw [List.flatten_append,List.flatten_cons,← List.append_assoc] at joined
    exact joined.symm
  · obtain ⟨other,found,replacement,same,stands,shape,_⟩ := put_of_fix fixed
    cases here.symm.trans same
    cases at_.symm.trans stands
    refine ⟨replacement,?_⟩
    unfold Patch.code
    rw [shape,List.flatten_append,List.flatten_append]

/-- At the start of a pass a repair asks about the line of an issue and puts the answer in its place. It is the
line that the parser counted, that is, behind as many line feeds as its number says, exactly if all breaks up to
there are line feeds. -/
theorem target?_iff_feeds {parsers : Parsers} (numbered : parsers.Numbered) {dialect : Dialect}
    (own : dialect ≠ .blocks) {code : Text} (plain : '\r' ∉ code) {issue : Issue}
    (reported : issue ∈ (dialect.target parsers).issues code) (counted : 1 ≤ issue.line)
    (issues : List Issue) :
    let p := Patch.ofCode code issues
    (p.target? issue = none → (r.fix p issue).run.run s = (.ok none,s)) ∧
      (∀ before line, p.target? issue = some (before,line) →
        ((r.fix p issue).run.run s).2.asked = line :: s.asked ∧
          ∃ after, code = before ++ line ++ after ∧ ∀ q t, (r.fix p issue).run.run s = (.ok (some q),t) →
            ∃ replacement, q.code = before ++ (Patch.replacementLines replacement line).flatten ++ after) ∧
      (p.target? issue = lineAt (feedLines code) (issue.line - 1).toNat ↔
        ∀ line ∈ (feedLines code).take issue.line.toNat, Unbroken line.dropLast) := by
  intro p
  have whole : p.code = code := flatten_lines code
  refine ⟨r.fix_of_target?_none s,fun before line target => ?_,?_⟩
  · rw [← whole]
    exact r.fix_of_target? s target
  · obtain ⟨before,begins,number⟩ := numbered.issue_line own plain reported counted
    have count := (begins.sublist.count_le '\n').trans (count_feed_le code)
    have next : issue.line.toNat = (issue.line - 1).toNat + 1 := by omega
    rw [Patch.target?_ofCode code issues counted,lines_eq_flatMap,
      lineAt_flatMap_iff (fun line member => feedLines_filled member) (by omega),next]
    refine forall₂_congr fun line member => ?_
    have inside := List.mem_of_mem_take member
    have apart : '\r' ∉ line := by
      obtain ⟨front,back,same,_⟩ := mem_feedLines inside
      rw [same] at plain
      exact fun within => plain (by simp [within])
    exact lines_eq_self_iff (feedLines_filled inside) apart

/-- A form feed stands behind the line of the issue, and the line is found. -/
theorem target?_iff_feeds_below :
    let code : Text := "class A \x7b\n  int x = ;\n  // a\x0cb\n\x7d\n"
    let hole : Node := ⟨"identifier",20,20,1,true,true,true,none,[]⟩
    let root (children : List Node) : Node := ⟨"program",0,0,0,true,false,!children.isEmpty,none,children⟩
    let parsers : Parsers :=
      ⟨⟨fun _ => none,fun _ => none⟩,fun other => root (if other = code then [hole] else [])⟩
    let issue : Issue := ⟨"Missing 'identifier'",2⟩
    parsers.Numbered ∧ issue ∈ (Dialect.packages.target parsers).issues code ∧
      ∀ (r : Repairer) (s : RepairState) (issues : List Issue),
        ((r.fix (.ofCode code issues) issue).run.run s).2.asked = "  int x = ;\n".toList :: s.asked := by
  intro code hole root parsers issue
  have numbered : parsers.Numbered := by
    refine ⟨fun _ told => (by cases told),fun {other n} _ within_ => ?_⟩
    cases within_ with
    | self => exact ⟨[],List.nil_prefix,rfl⟩
    | child inside deeper =>
      rename_i c
      by_cases same : other = code
      · subst same
        have only : c = hole := by simpa [parsers,root] using inside
        subst only
        cases deeper with
        | self => exact ⟨code.take 10,List.take_prefix 10 _,by decide +kernel⟩
        | child further _ => cases further
      · simp [parsers,root,same] at inside
  have reported : issue ∈ (Dialect.packages.target parsers).issues code := by
    have told : (Dialect.packages.target parsers).issues code = [issue] := by decide +kernel
    simp [told]
  refine ⟨numbered,reported,fun r s issues => ?_⟩
  obtain ⟨_,asks,feeds⟩ := r.target?_iff_feeds s numbered (by decide) (by decide +kernel) reported
    (by decide) issues
  have here := feeds.2 (by decide +kernel)
  exact (asks _ _ (here.trans rfl)).1

/-- A form feed in a comment is no line feed, so the parser counts one line before the issue and the repair
two: it sends the rest of the comment, on which nothing is wrong. -/
theorem target?_not_feeds :
    let code : Text := "x = 1  # a\x0cb\ny = = 2\n"
    let issue : Issue := ⟨"invalid syntax",2⟩
    let complaint : Complaint := .malformed (some "invalid syntax") (some 2)
    let parsers : Parsers :=
      ⟨⟨fun other => if other = code then some complaint else none,fun _ => none⟩,
        fun _ => ⟨"program",0,0,0,true,false,false,none,[]⟩⟩
    parsers.Numbered ∧ '\r' ∉ code ∧ (Dialect.modules.target parsers).issues code = [issue] ∧
      (feedLines code)[1]? = some ("y = = 2\n" : Text) ∧ ∀ (r : Repairer) (s : RepairState),
        ((r.fix (.ofCode code [issue]) issue).run.run s).2.asked = "b\n".toList :: s.asked := by
  intro code issue complaint parsers
  have numbered : parsers.Numbered := by
    refine ⟨fun {other message n} _ told => ?_,fun _ within_ => ?_⟩
    · by_cases same : other = code
      · subst same
        have same : complaint = .malformed message (some n) := by simpa [parsers] using told
        obtain ⟨_,same⟩ := Complaint.malformed.inj same
        cases same
        exact ⟨code.take 13,List.take_prefix 13 _,by decide +kernel⟩
      · simp [parsers,same] at told
    · cases within_ with
      | self => exact ⟨[],List.nil_prefix,rfl⟩
      | child inside _ => cases inside
  refine ⟨numbered,by decide +kernel,by decide +kernel,by decide +kernel,fun r s => ?_⟩
  have target : (Patch.ofCode code [issue]).target? issue = some (code.take 11,"b\n".toList) := by
    decide +kernel
  exact (r.fix_of_target? s target).1

end Repairer

end Recast
