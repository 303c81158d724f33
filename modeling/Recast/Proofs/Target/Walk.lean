import Recast.Target.Packages

/-! The issues of a syntax tree. The search for them goes from node to node with the nodes that are left beside
it; what it finds is what a walk from left to right finds, in the order of the document. -/
namespace Recast.Node

mutual

/-- The issues of a tree from left to right. -/
def issues (code : Text) : Node → List Issue
  | ⟨kind, start, stop, row, named, missing, faulty, field, children⟩ =>
    let n : Node := ⟨kind, start, stop, row, named, missing, faulty, field, children⟩
    if missing then [n.missingPart]
    else if n.isError then [n.misfit code]
    else if faulty then issuesOfAll code children
    else []

def issuesOfAll (code : Text) : List Node → List Issue
  | [] => []
  | n :: ns => issues code n ++ issuesOfAll code ns

end

mutual

/-- The nodes of a tree in the order of the document. -/
def preorder : Node → List Node
  | ⟨kind, start, stop, row, named, missing, faulty, field, children⟩ =>
    ⟨kind, start, stop, row, named, missing, faulty, field, children⟩ :: preorderOfAll children

def preorderOfAll : List Node → List Node
  | [] => []
  | n :: ns => preorder n ++ preorderOfAll ns

end

variable {code : Text} {n root : Node} {ns : List Node}

theorem issues_eq (code : Text) (n : Node) : n.issues code =
    if n.missing then [n.missingPart] else if n.isError then [n.misfit code]
    else if n.faulty then issuesOfAll code n.children else [] := by
  cases n
  rw [issues]

theorem issuesOfAll_append (code : Text) (ns ms : List Node) :
    issuesOfAll code (ns ++ ms) = issuesOfAll code ns ++ issuesOfAll code ms := by
  induction ns with
  | nil => rfl
  | cons n ns ih => rw [List.cons_append,issuesOfAll,issuesOfAll,ih,List.append_assoc]

theorem preorder_eq (n : Node) : n.preorder = n :: preorderOfAll n.children := by
  cases n
  rw [preorder]

namespace Search
variable {s t : Search}

/-- A step leaves the issues that are found or still lie ahead as they are. -/
theorem found_append_of_step? (taken : s.step? code = some t) :
    t.found ++ issuesOfAll code t.ahead = s.found ++ issuesOfAll code s.ahead := by
  obtain ⟨ahead,found⟩ := s
  cases ahead with
  | nil => cases taken
  | cons n rest =>
    simp only [step?,Option.some.injEq] at taken
    subst taken
    rw [issuesOfAll,issues_eq]
    by_cases missing : n.missing = true
    · simp [missing]
    · by_cases misfit : n.isError = true
      · simp [missing,misfit]
      · by_cases faulty : n.faulty = true
        · simp [missing,misfit,faulty,push_eq,issuesOfAll_append]
        · simp [missing,misfit,faulty]

theorem step?_eq_none_iff : s.step? code = none ↔ s.ahead = [] := by
  obtain ⟨ahead,found⟩ := s
  cases ahead with
  | nil => simp [step?]
  | cons n rest => simp [step?]

theorem run_eq (code : Text) (s : Search) : s.run code = s.found ++ issuesOfAll code s.ahead := by
  fun_induction run code s with
  | case1 s ended =>
    rw [step?_eq_none_iff.1 ended,issuesOfAll,List.append_nil]
  | case2 s t taken _ ih => rw [ih,found_append_of_step? taken]

/-- So many steps lead from one state of a search to another. -/
inductive Steps (code : Text) : Nat → Search → Search → Prop where
  | done (s : Search) : Steps code 0 s s
  | step {k : Nat} {s t u : Search} : s.step? code = some t → Steps code k t u → Steps code (k + 1) s u

/-- A search ends after at most as many steps as there are nodes ahead. -/
theorem exists_steps (code : Text) (s : Search) :
    ∃ k ≤ sizeOfAll s.ahead, Steps code k s ⟨[],s.run code⟩ := by
  fun_induction run code s with
  | case1 s ended =>
    obtain ⟨ahead,found⟩ := s
    cases step?_eq_none_iff.1 ended
    exact ⟨0,Nat.zero_le _,.done _⟩
  | case2 s t taken less ih =>
    obtain ⟨k,bound,steps⟩ := ih
    exact ⟨k + 1,Nat.lt_of_le_of_lt bound less,.step taken steps⟩

end Search

/-- An issue is told about the node itself, or else all issues are those of its parts. -/
theorem lines_issues_of_children
    (parts : ((issuesOfAll code n.children).map Issue.line).Sublist ((preorderOfAll n.children).map line)) :
    ((n.issues code).map Issue.line).Sublist (n.preorder.map line) := by
  have here : [n.line].Sublist (n.preorder.map line) := by
    rw [preorder_eq]
    exact List.singleton_sublist.2 (by simp)
  rw [issues_eq]
  by_cases missing : n.missing = true
  · rw [if_pos missing]
    exact here
  · rw [if_neg missing]
    by_cases misfit : n.isError = true
    · rw [if_pos misfit]
      exact here
    · rw [if_neg misfit]
      by_cases faulty : n.faulty = true
      · rw [if_pos faulty,preorder_eq]
        exact parts.cons _
      · rw [if_neg faulty]
        exact List.nil_sublist _

mutual

theorem lines_issues_sublist (code : Text) :
    (n : Node) → ((n.issues code).map Issue.line).Sublist (n.preorder.map line)
  | ⟨_,_,_,_,_,_,_,_,children⟩ => lines_issues_of_children (lines_issuesOfAll_sublist code children)

theorem lines_issuesOfAll_sublist (code : Text) :
    (ns : List Node) → ((issuesOfAll code ns).map Issue.line).Sublist ((preorderOfAll ns).map line)
  | [] => List.Sublist.slnil
  | n :: ns => by
    rw [issuesOfAll,preorderOfAll,List.map_append,List.map_append]
    exact (lines_issues_sublist code n).append (lines_issuesOfAll_sublist code ns)

end

theorem verdict_faulty (faulty : root.faulty = true) : root.verdict code =
    ⟨false,if root.issues code = [] then [unknown] else root.issues code⟩ := by
  have found : Search.run code { ahead := [root] } = root.issues code := by
    rw [Search.run_eq,issuesOfAll,issuesOfAll,List.append_nil,List.nil_append]
  simp only [verdict,faulty,found,List.isEmpty_iff]
  rfl

theorem verdict_fine (fine : root.faulty = false) : root.verdict code = ⟨true,[]⟩ := by
  rw [verdict,fine]
  rfl

theorem issues_verdict_ne_nil (faulty : root.faulty = true) : (root.verdict code).issues ≠ [] := by
  rw [verdict_faulty faulty]
  dsimp only
  split
  · simp
  · assumption

/-- What is reported are the issues of the verdict. -/
theorem allIssues_eq (code : Text) (root : Node) : root.allIssues code = (root.verdict code).issues := by
  unfold allIssues Verdict.reported
  cases faulty : root.faulty with
  | true =>
    have failed : (root.verdict code).success = false := by rw [verdict_faulty faulty]
    have some_ : (root.verdict code).issues ≠ [] := issues_verdict_ne_nil faulty
    rw [if_neg (by simp [failed]),if_neg (by simpa using some_)]
  | false =>
    rw [verdict_fine faulty]
    rfl

/-- The search for issues in a tree ends after at most one step for each node, whatever the nodes say of
themselves, and finds what a walk from left to right finds. A code is well formed exactly if its tree is not
faulty; otherwise there is at least one issue, and all of them are those of the walk, if it finds any. Where the
rows of the nodes do not fall in the order of the document, neither do the lines of the issues. -/
theorem verdict_in_order (code : Text) (root : Node) :
    let begun : Search := { ahead := [root] }
    let v := root.verdict code
    (∃ k ≤ root.size, Search.Steps code k begun ⟨[],root.issues code⟩) ∧
    begun.run code = root.issues code ∧
    (v.success = true ↔ root.faulty = false) ∧
    (root.faulty = false → v.issues = []) ∧
    (root.faulty = true → v.issues ≠ [] ∧ (root.issues code ≠ [] → v.issues = root.issues code)) ∧
    root.allIssues code = v.issues ∧
    (root.preorder.Pairwise (fun a b => a.row ≤ b.row) → v.issues.Pairwise fun a b => a.line ≤ b.line) := by
  intro begun v
  have found : begun.run code = root.issues code := by
    rw [Search.run_eq,issuesOfAll,issuesOfAll,List.append_nil,List.nil_append]
  obtain ⟨k,bound,steps⟩ := begun.exists_steps code
  rw [found] at steps
  refine ⟨⟨k,bound,steps⟩,found,?_,fun fine => ?_,fun faulty => ⟨issues_verdict_ne_nil faulty,fun some_ => ?_⟩,
    allIssues_eq code root,fun rows => ?_⟩
  · cases faulty : root.faulty with
    | true => simp [v,verdict_faulty faulty]
    | false => simp [v,verdict_fine faulty]
  · simp only [v,verdict_fine fine]
  · simp only [v,verdict_faulty faulty,if_neg some_]
  · have walked : (root.issues code).Pairwise fun a b => a.line ≤ b.line := by
      have lines : (root.preorder.map line).Pairwise (· ≤ ·) := by
        refine List.pairwise_map.2 (rows.imp fun {a b} below => ?_)
        unfold line
        omega
      exact List.pairwise_map.1 (lines.sublist (lines_issues_sublist code root))
    cases faulty : root.faulty with
    | true =>
      simp only [v,verdict_faulty faulty]
      split
      · exact List.pairwise_singleton _ _
      · exact walked
    | false =>
      simp only [v,verdict_fine faulty]
      exact .nil

end Recast.Node
