import Recast.Proofs.Run.Agreement
import Recast.Proofs.Run.Overwrite

/-! Two runs side by side, at the same point of their work: their records are alike, and so are their
files. A file that both record, and a move that both make, leave them so. -/
namespace Recast
open Steps Converter

/-- Records that are alike and files that are the same, the places that are the runs' own left aside.
Every output that is recorded has its folder in both trees. -/
structure Abreast (Own : Key → Prop) (p q : Progress) (t u : Tree) : Prop where
  like : p.Like q
  distinct : p.outcomes.names.Nodup
  single : p.outputs.names.Nodup
  files : ∀ k, ¬ Own k → u.file? k = t.file? k
  rooted : ∀ a o, p.outputs.get? a = some o → t.isFolder (outputKey p o).dropLast = true ∧
    u.isFolder (outputKey p o).dropLast = true

/-- Every output that is recorded is there, at a place that is not one of the runs' own. -/
def Present (Own : Key → Prop) (p : Progress) (t : Tree) : Prop :=
  ∀ a o, p.outputs.get? a = some o → o ≠ [] ∧ ¬ Own (outputKey p o) ∧
    ∃ content, t.file? (outputKey p o) = some content

theorem Present.later {Own : Key → Prop} {p : Progress} {t later : Tree} (present : Present Own p t)
    (files : ∀ k, ¬ Own k → later.file? k = t.file? k) : Present Own p later := by
  intro a o held
  obtain ⟨filled,outside,content,file⟩ := present a o held
  exact ⟨filled,outside,content,by rw [files _ outside,file]⟩

namespace Abreast
variable {Own : Key → Prop} {p q : Progress} {t u : Tree}

theorem outputKey_eq (abreast : Abreast Own p q t u) (o : Text) : outputKey q o = outputKey p o :=
  outputKey_congr abreast.like.output o

/-- Files at the places of their own may change, and folders may be added. -/
theorem later (abreast : Abreast Own p q t u) {t_ u_ : Tree}
    (files : ∀ k, ¬ Own k → t_.file? k = t.file? k)
    (folders : ∀ k, t.isFolder k = true → t_.isFolder k = true)
    (files_ : ∀ k, ¬ Own k → u_.file? k = u.file? k)
    (folders_ : ∀ k, u.isFolder k = true → u_.isFolder k = true) : Abreast Own p q t_ u_ where
  like := abreast.like
  distinct := abreast.distinct
  single := abreast.single
  files := fun k outside => by rw [files k outside,files_ k outside,abreast.files k outside]
  rooted := fun a o held => by
    obtain ⟨left,right⟩ := abreast.rooted a o held
    exact ⟨folders _ left,folders_ _ right⟩

theorem completedContents (abreast : Abreast Own p q t u) (present : Present Own p t)
    (sources : List Text) : completedContents q u sources = completedContents p t sources := by
  induction sources with
  | nil => rfl
  | cons a rest ih =>
    have output := abreast.like.get?_outputs abreast.single a
    unfold Converter.completedContents
    rw [ih,output]
    cases held : p.outputs.get? a with
    | none => rfl
    | some o =>
      obtain ⟨filled,outside,content,file⟩ := present a o held
      have same : u.file? (outputKey q o) = t.file? (outputKey p o) := by
        rw [abreast.outputKey_eq,abreast.files _ outside]
      have there : (some o).filter (fun o => !o.isEmpty && t.exists? (outputKey p o)) = some o := by
        simp [Option.filter,filled,Tree.exists?,Tree.isFile,file]
      have there_ : (some o).filter (fun o => !o.isEmpty && u.exists? (outputKey q o)) = some o := by
        simp [Option.filter,filled,Tree.exists?,Tree.isFile,same,file]
      have read : u.readText (outputKey q o) = t.readText (outputKey p o) := by
        unfold Tree.readText Tree.read
        rw [same,file]
      rw [there,there_]
      dsimp only
      rw [read]

theorem moveOutput (abreast : Abreast Own p q t u) {finals : List Text} {e : Entry} {content : Text}
    {t_ u_ : Tree} (left : Converter.moveOutput p finals e content t = .ok t_)
    (right : Converter.moveOutput q finals e content u = .ok u_) :
    Abreast Own { p with outputs := p.outputs.set e.source e.output }
      { q with outputs := q.outputs.set e.source e.output } t_ u_ := by
  have like := abreast.like
  have shifted := shifted_moveOutput left
  have shifted_ := shifted_moveOutput right
  have leaves : left? q finals e = left? p finals e := by
    unfold left?
    rw [like.get?_outputs abreast.single]
  refine ⟨⟨like.root,like.output,Table.set_perm like.outputs _ _,like.processed,like.total,like.percent,
    like.summary,like.outcomes,like.failed⟩,abreast.distinct,Table.nodup_set abreast.single _ _,?_,?_⟩
  · intro k outside
    by_cases left_ : ∃ old, left? p finals e = some old ∧ outputKey p old = k
    · -- The former output goes in both trees, for its folder is in both.
      obtain ⟨old,held,rfl⟩ := left_
      obtain ⟨root,root_⟩ := abreast.rooted e.source old (Option.filter_eq_some_iff.1 held).1
      have gone := shifted_.gone old (leaves.trans held)
      rw [abreast.outputKey_eq] at gone
      rw [shifted.gone old held root,gone root_]
    · have apart : ∀ old, left? p finals e = some old → outputKey p old ≠ k :=
        fun old held same => left_ ⟨old,held,same⟩
      rw [shifted.files k apart,shifted_.files k (by simpa only [leaves,abreast.outputKey_eq] using apart),
        abreast.outputKey_eq,abreast.files k outside]
  · intro a o output
    dsimp only at output
    rw [Table.get?_set] at output
    split at output
    · cases output
      have here := isFolder_moveOutput left
      have here_ := isFolder_moveOutput right
      rw [abreast.outputKey_eq] at here_
      exact ⟨here,here_⟩
    · obtain ⟨root,root_⟩ := abreast.rooted a o output
      exact ⟨shifted.folders _ root,shifted_.folders _ root_⟩

theorem moveAll {index : NameIndex} {finals : List Text} {contents : List (Text × Text)}
    {files files_ : List Converted} {w u v v_ : World} {q_ : Progress}
    (abreast : Abreast Own p q w.tree u.tree) {r : Except RunError (Progress × List Converted)}
    {moved_ : List Converted}
    (ran : (Converter.moveAll index finals contents p files).run.run w = (r,v))
    (fine : ∀ e, r = .error e → ¬ e.OfFiles)
    (other : (Converter.moveAll index finals contents q files_).run.run u = (.ok (q_,moved_),v_)) :
    ∃ p_ moved, r = .ok (p_,moved) ∧ Abreast Own p_ q_ v.tree v_.tree ∧ p_.id = p.id ∧ q_.id = q.id := by
  induction contents generalizing p q w u files files_ with
  | nil =>
    cases ran
    cases other
    exact ⟨p,files,rfl,abreast,rfl,rfl⟩
  | cons f rest ih =>
    rw [run_moveAll] at ran
    rcases moveAll_cons other with ⟨found,other⟩ | ⟨e,u1,found,right,other⟩
    · rw [found] at ran
      exact ih abreast ran other
    · rw [found] at ran
      dsimp only at ran
      cases left : Converter.moveOutput p finals e f.2 w.tree with
      | error fault =>
        rw [left] at ran
        cases ran
        exact absurd trivial (fine _ rfl)
      | ok t1 =>
        rw [left] at ran
        have own : e.source = f.1 := by simpa using List.find?_some found
        have further := abreast.moveOutput left right
        rw [own] at further
        have later := ih (w := ⟨w.line,t1,w.events,w.delays,_,_⟩)
          (u := ⟨u.line,u1,u.events,u.delays,_,_⟩) further ran other
        exact later

end Abreast

namespace Converter
variable {c : Converter} {x y : Circumstance}

theorem namer_under (c : Converter) (x : Circumstance) : (c.under x).namer = c.namer.on x.service := by
  have session : (if c.settings.run.generateNames then some (c.under x).session else none) =
      (if c.settings.run.generateNames then some c.session else none).map fun s => s.on x.service := by
    split
    · rfl
    · rfl
  exact congrArg (Namer.mk c.target c.settings.language.package) session

variable {f : Request → Text} (left : x.service.Answers f) (right : y.service.Answers f)
  {Own : Key → Prop} {p q : Progress} {w u v v_ : World}
include left right

/-- Both lay out the same files in the same way. -/
theorem abreast_layOut (abreast : Abreast Own p q w.tree u.tree)
    (present : Present Own p w.tree) {result result_ last_ : RunResult} {q_ : Progress}
    {r : Except RunError (Progress × RunResult)}
    (ran : ((c.under x).layOut p result).run.run w = (r,v)) (fine : ∀ e, r = .error e → ¬ e.OfFiles)
    (other : ((c.under y).layOut q result_).run.run u = (.ok (q_,last_),v_)) :
    ∃ p_ last, r = .ok (p_,last) ∧ last.cancelled = result.cancelled ∧
      Abreast Own p_ q_ v.tree v_.tree ∧ p_.id = p.id ∧ q_.id = q.id := by
  have read_ : Converter.completedContents q u.tree q.completedPaths =
      Converter.completedContents p w.tree p.completedPaths := by
    rw [abreast.like.completedPaths abreast.distinct,abreast.completedContents present]
  rcases run_layOut_whole other with ⟨read,rfl,_,rfl⟩ |
    ⟨contents,index,line_,report,moved_,after_,filled,read,told_,renamed,ran_,_,rfl⟩
  · rw [run_layOut_nil (read_ ▸ read)] at ran
    cases ran
    exact ⟨p,result,rfl,rfl,abreast,rfl,rfl⟩
  · have told := (Namer.agree_index left right c.namer contents w.line u.line trivial).1
    rw [← namer_under,← namer_under,told_] at told
    cases here : ((c.under x).namer.index contents).run.run w.line with
    | mk answer line =>
      rw [here] at told
      cases told
      rw [run_layOut_cons filled (read_ ▸ read) here renamed,run_bind] at ran
      cases moves : (moveAll index ((report.files.filterMap fun f => index.bySource? f.1).map Entry.output)
          report.files p result.files).run.run { w with line := line } with
      | mk answer after =>
        rw [moves] at ran
        cases answer with
        | error e =>
          cases ran
          obtain ⟨p1,moved,none_,_⟩ := Abreast.moveAll (w := { w with line := line })
            (u := { u with line := line_ }) abreast moves (fun e_ same => by cases same; exact fine e rfl) ran_
          cases none_
        | ok found =>
          obtain ⟨p1,moved,same,later,id,id_⟩ := Abreast.moveAll (w := { w with line := line })
            (u := { u with line := line_ }) abreast moves (fun e_ same => by cases same) ran_
          cases same
          cases ran
          exact ⟨p1,_,rfl,rfl,later,id,id_⟩

end Converter
end Recast
