import Recast.Proofs.Rename.Lines
import Recast.Proofs.Target.Blocks

/-! A renaming keeps the issues of a file. Where the block symbols are single characters of no dotted
name, every line has the same symbols once its names have changed. -/
namespace Recast
open Text

namespace Symbols

/-- Each symbol is one character that no dotted name has. -/
structure Bare (symbols : Symbols) : Prop where
  opening : ∃ c, symbols.opening = [c] ∧ isDotted c = false
  closing : ∃ c, symbols.closing = [c] ∧ isDotted c = false

/-- The symbols of a text are those of its characters. -/
theorem Bare.tokens_eq {symbols : Symbols} (bare : symbols.Bare) (s : Text) :
    symbols.tokens s = s.filterMap fun c => symbols.token? [c] := by
  obtain ⟨⟨d,opening,_⟩,e,closing,_⟩ := bare
  exact tokens_singleton opening closing s

theorem Bare.token?_dotted {symbols : Symbols} (bare : symbols.Bare) {c : Char}
    (dotted : isDotted c = true) : symbols.token? [c] = none := by
  obtain ⟨⟨d,opening,first⟩,e,closing,second⟩ := bare
  rw [token?_singleton opening closing,if_neg fun same => ?_,if_neg fun same => ?_]
  · rw [← same,second] at dotted
    cases dotted
  · rw [← same,first] at dotted
    cases dotted

/-- Issues depend only on the symbols of each line. -/
theorem issues_congr {symbols : Symbols} {s t : Text}
    (same : (bareLines s).map symbols.tokens = (bareLines t).map symbols.tokens) :
    symbols.issues s = symbols.issues t := by
  have located (number : Nat) (ls ms : List Text) (same : ls.map symbols.tokens = ms.map symbols.tokens) :
      symbols.locateFrom number ls = symbols.locateFrom number ms := by
    induction ls generalizing number ms with
    | nil =>
      cases ms with
      | nil => rfl
      | cons m ms => cases same
    | cons l ls ih =>
      cases ms with
      | nil => cases same
      | cons m ms =>
        obtain ⟨first,rest⟩ := List.cons.inj same
        rw [locateFrom,locateFrom,first,ih _ _ rest]
  unfold issues locate
  rw [located 1 _ _ same]

end Symbols

namespace NameIndex
open Target
variable {x : NameIndex} (worded : x.Worded) {symbols : Symbols} (bare : symbols.Bare)
include worded bare

/-- A file has the same issues with the new names. -/
theorem Worded.issues_newFile (file : Text × Text) :
    symbols.issues (x.newFile file).2 = symbols.issues file.2 := by
  obtain ⟨source,code⟩ := file
  have unread (c : Char) : isDotted c = true → symbols.token? [c] = none := bare.token?_dotted
  have restructured := lines_respelled (fun _ => isBreak_of_isDotted)
    (worded.respelled_restructureLine source) code
  refine Symbols.issues_congr ?_
  unfold newFile bareLines
  dsimp only
  rw [worded.lines_newLine,List.map_map,List.map_map,List.map_map]
  refine List.map_congr_left fun line member => ?_
  have first := bareLines_respelled (fun _ => isBreak_of_isDotted)
    (worded.respelled_restructureLine source) member
  have inside : restructureLine (x.bySource? source) x line ∈
      lines ((lines code).map (restructureLine (x.bySource? source) x)).flatten := by
    rw [restructured]
    exact List.mem_map_of_mem member
  have second := bareLines_respelled (fun _ => isBreak_of_isDotted) (worded.respelled_nameLine source) inside
  simp only [Function.comp_apply,bare.tokens_eq]
  exact ((first.filterMap unread).trans (second.filterMap unread)).symm

/-- However many passes a renaming takes, each file has its issues from before. -/
theorem Worded.issues_apply {name extension : Text} {bound : Nat} {files : List (Text × Text)}
    {report : RenamingReport}
    (done : Renaming.apply (.blocks name extension symbols) x bound files = some report) :
    ∀ f ∈ report.files, ∃ g ∈ files, g.1 = f.1 ∧ symbols.issues f.2 = symbols.issues g.2 := by
  have all (left : Nat) (before after : RenamingReport)
      (ran : Renaming.run (.blocks name extension symbols) x left before = some after) :
      ∀ f ∈ after.files, ∃ g ∈ before.files, g.1 = f.1 ∧ symbols.issues f.2 = symbols.issues g.2 := by
    induction left generalizing before with
    | zero =>
      cases ran
      exact fun f member => ⟨f,member,rfl,rfl⟩
    | succ left ih =>
      have each : ∀ f ∈ (Renaming.sortedFiles before.files).map x.newFile,
          ∃ g ∈ before.files, g.1 = f.1 ∧ symbols.issues f.2 = symbols.issues g.2 := by
        intro f member
        obtain ⟨g,inside,rfl⟩ := List.mem_map.1 member
        exact ⟨g,(Ordered.sort_perm _ _).mem_iff.1 inside,rfl,worded.issues_newFile bare g⟩
      rw [Renaming.run,worded.pass_blocks] at ran
      dsimp only at ran
      split at ran
      · cases ran
        exact each
      · intro f member
        obtain ⟨g,inside,path,issues⟩ := ih _ ran f member
        obtain ⟨h,there,path_,issues_⟩ := each g inside
        exact ⟨h,there,path_.trans path,issues.trans issues_⟩
  exact all bound _ report done

end NameIndex

end Recast
