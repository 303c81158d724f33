import Recast.Proofs.Run.Verdict

/-! The last move of a project loses nothing, however the former and the final places of its files
overlap, as long as no two of their paths lead to one place. -/
namespace Recast

namespace Tree

/-- Every file lies in a folder. -/
def Closed (t : Tree) : Prop := ∀ f ∈ t.files, t.isFolder f.1.dropLast = true

instance (t : Tree) : Decidable t.Closed :=
  inferInstanceAs (Decidable (∀ f ∈ t.files, t.isFolder f.1.dropLast = true))

theorem mem_of_isFile {t : Tree} {k : Key} (file : t.isFile k = true) : ∃ f ∈ t.files, f.1 = k := by
  unfold isFile file? at file
  cases found : t.files.find? fun f => f.1 == k with
  | none =>
    rw [found] at file
    cases file
  | some f => exact ⟨f,List.mem_of_find?_eq_some found,by simpa using List.find?_some found⟩

end Tree

namespace Converter
open Steps

/-- The sources whose outputs are read are those that have one in the tree. -/
theorem mem_completedContents {p : Progress} {t : Tree} {sources : List Text}
    {contents : List (Text × Text)} (read : completedContents p t sources = .ok contents) {a : Text} :
    a ∈ contents.map Prod.fst ↔ a ∈ sources ∧ ∃ o, p.outputs.get? a = some o ∧ o ≠ [] ∧
      t.exists? (outputKey p o) = true := by
  induction sources generalizing contents with
  | nil =>
    cases read
    simp
  | cons b rest ih =>
    have known (o : Text) : (p.outputs.get? b).filter (fun o => !o.isEmpty && t.exists? (outputKey p o)) =
        some o ↔ p.outputs.get? b = some o ∧ o ≠ [] ∧ t.exists? (outputKey p o) = true := by
      simp [Option.filter_eq_some_iff]
    unfold completedContents at read
    split at read
    · rename_i none_
      rw [ih read,List.mem_cons]
      constructor
      · exact fun ⟨member,there⟩ => ⟨.inr member,there⟩
      · rintro ⟨rfl | member,there⟩
        · obtain ⟨o,here⟩ := there
          rw [(known o).2 here] at none_
          cases none_
        · exact ⟨member,there⟩
    · rename_i o held
      obtain ⟨text,_,read⟩ := ok_of_bind read
      obtain ⟨more,others,read⟩ := ok_of_bind read
      cases read
      rw [List.map_cons,List.mem_cons,ih others,List.mem_cons]
      constructor
      · rintro (rfl | ⟨member,there⟩)
        · exact ⟨.inl rfl,o,(known o).1 held⟩
        · exact ⟨.inr member,there⟩
      · rintro ⟨rfl | member,there⟩
        · exact .inl rfl
        · exact .inr ⟨member,there⟩

variable {c : Converter} {p q : Progress} {w v : World}

theorem apply_nil (target : Target) (index : NameIndex) (bound : Nat) :
    ∃ report, Renaming.apply target index bound [] = some report := by
  unfold Renaming.apply
  cases bound with
  | zero => exact ⟨_,rfl⟩
  | succ n => exact ⟨_,rfl⟩

/-- What the files of a project are laid out by: the contents that are there, their index, and the
texts that the renaming makes of them. -/
structure Survey (c : Converter) (p : Progress) (w : World) where
  contents : List (Text × Text)
  index : NameIndex
  line : Line
  report : RenamingReport
  read : completedContents p w.tree p.completedPaths = .ok contents
  told : (c.namer.index contents).run.run w.line = (.ok index,line)
  renamed : Renaming.apply c.target index c.settings.run.maxPasses contents = some report

namespace Survey
variable (s : Survey c p w)

/-- The paths where the indexed files belong. -/
def finals : List Text := s.index.all.map Entry.output

/-- The paths where the indexed files were. -/
def formers : List Text := s.index.all.filterMap fun e => p.outputs.get? e.source

/-- No final path of a file leads to the place of another former or final path. -/
def Unaliased : Prop :=
  ∀ o ∈ s.finals, ∀ r ∈ s.formers ++ s.finals, outputKey p r = outputKey p o → r = o

/-- The move of the files lost nothing. -/
structure Lossless (q : Progress) (v : World) : Prop where
  placed : ∀ a o, p.isCompleted a = true → p.outputs.get? a = some o → o ≠ [] →
    w.tree.exists? (outputKey p o) = true → ∃ e content, s.index.bySource? a = some e ∧
      e ∈ s.index.all ∧ (a,content) ∈ s.report.files ∧
      v.tree.file? (outputKey p e.output) = some (.text content) ∧
      q.outputs.get? a = some e.output ∧ (o ∉ s.finals → v.tree.exists? (outputKey p o) = false)
  kept : ∀ k, (∀ r ∈ s.formers ++ s.finals, outputKey p r ≠ k) → v.tree.file? k = w.tree.file? k
  missing : ∀ a, p.isCompleted a = true → (∀ o, p.outputs.get? a = some o → o ≠ [] →
    w.tree.exists? (outputKey p o) = false) → q.outputs.get? a = p.outputs.get? a

theorem unaliased_of_spreads {Name : Text → Prop}
    (spreads : c.target.Spreads c.settings.language.package Name)
    (plain : ∀ a o, p.outputs.get? a = some o → Path.Plain o) : s.Unaliased := by
  obtain ⟨sources,_,spaced⟩ := (Namer.obeys_index (n := c.namer) spreads s.contents).ok s.told
  have final (o : Text) (member : o ∈ s.finals) : Path.Plain o := by
    obtain ⟨e,inside,rfl⟩ := List.mem_map.1 member
    obtain ⟨name,fine,output⟩ := spaced.placed e inside
    rw [output]
    exact spreads.plain _ name fine
  intro o inside r member same
  refine outputKey_inj ?_ (final o inside) same
  rcases List.mem_append.1 member with former | last
  · obtain ⟨e,_,held⟩ := List.mem_filterMap.1 former
    exact plain e.source r held
  · exact final r last

variable {s}

theorem paths : (s.report.files.map Prod.fst).Perm (s.contents.map Prod.fst) :=
  Renaming.map_fst_apply s.renamed

theorem mem_paths {a : Text} : a ∈ s.report.files.map Prod.fst ↔ p.isCompleted a = true ∧
    ∃ o, p.outputs.get? a = some o ∧ o ≠ [] ∧ w.tree.exists? (outputKey p o) = true := by
  rw [s.paths.mem_iff,mem_completedContents s.read,Progress.mem_completedPaths]

theorem nodup_paths (distinct : p.outcomes.names.Nodup) : (s.report.files.map Prod.fst).Nodup :=
  s.paths.nodup_iff.2 ((sublist_completedContents s.read).nodup (Progress.nodup_completedPaths distinct))

/-- The output that a file has was read, so it is there. -/
theorem isFile {a o : Text} (member : a ∈ s.report.files.map Prod.fst) (held : p.outputs.get? a = some o) :
    w.tree.isFile (outputKey p o) = true := by
  obtain ⟨f,inside,rfl⟩ := List.mem_map.1 (s.paths.mem_iff.1 member)
  obtain ⟨o_,output,told⟩ := of_mem_completedContents s.read inside
  rw [held] at output
  cases output
  exact Tree.isFile_of_readText told

section
variable (counts : c.target.Counts c.settings.language.package)
include counts

theorem spaced : ∃ sources, sources.Perm (s.report.files.map Prod.fst) ∧
    c.namer.Spaced (fun _ => True) sources s.index := by
  obtain ⟨sources,same,spaced⟩ := (Namer.obeys_index_counts (n := c.namer) counts s.contents).ok s.told
  exact ⟨sources,same.trans s.paths.symm,spaced⟩

theorem entry {a : Text} (member : a ∈ s.report.files.map Prod.fst) :
    ∃ e, s.index.bySource? a = some e ∧ e ∈ s.index.all ∧ e.source = a := by
  obtain ⟨sources,same,spaced⟩ := s.spaced counts
  exact spaced.entry (same.mem_iff.2 member)

theorem source_mem {e : Entry} (member : e ∈ s.index.all) : e.source ∈ s.report.files.map Prod.fst := by
  obtain ⟨sources,same,spaced⟩ := s.spaced counts
  rw [← same.mem_iff,← spaced.sources]
  exact List.mem_map_of_mem member

theorem output_inj {d e : Entry} (left : d ∈ s.index.all) (right : e ∈ s.index.all)
    (same : d.output = e.output) : d = e := by
  obtain ⟨sources,_,spaced⟩ := s.spaced counts
  exact spaced.output_inj left right same

theorem bySource?_source (distinct : p.outcomes.names.Nodup) {e : Entry} (member : e ∈ s.index.all) :
    s.index.bySource? e.source = some e := by
  obtain ⟨sources,same,spaced⟩ := s.spaced counts
  have once : (s.index.all.map Entry.source).Nodup := by
    rw [spaced.sources]
    exact same.nodup_iff.2 (s.nodup_paths distinct)
  exact NameIndex.bySource?_of_nodup once member

theorem mem_finals (distinct : p.outcomes.names.Nodup) {o : Text} :
    o ∈ (s.report.files.filterMap fun f => s.index.bySource? f.1).map Entry.output ↔ o ∈ s.finals := by
  constructor
  · intro member
    obtain ⟨e,inside,rfl⟩ := List.mem_map.1 member
    obtain ⟨f,_,found⟩ := List.mem_filterMap.1 inside
    exact List.mem_map_of_mem (NameIndex.of_bySource? found).1
  · intro member
    obtain ⟨e,inside,rfl⟩ := List.mem_map.1 member
    obtain ⟨f,file,same⟩ := List.mem_map.1 (s.source_mem counts inside)
    have found := s.bySource?_source counts distinct inside
    rw [← same] at found
    exact List.mem_map_of_mem (List.mem_filterMap.2 ⟨f,file,found⟩)

end

end Survey

section
variable {result later : RunResult} (ran : (c.layOut p result).run.run w = (.ok (q,later),v))
include ran

theorem exists_survey : Nonempty (Survey c p w) := by
  rcases run_layOut ran with ⟨read,_,_,_⟩ | ⟨contents,index,line,report,_,_,read,told,renamed,_,_,_⟩
  · obtain ⟨report,renamed⟩ := apply_nil c.target NameIndex.empty.freeze c.settings.run.maxPasses
    exact ⟨⟨[],_,w.line,report,read,rfl,renamed⟩⟩
  · exact ⟨⟨contents,index,line,report,read,told,renamed⟩⟩

theorem Survey.relocated (s : Survey c p w) (counts : c.target.Counts c.settings.language.package)
    (distinct : p.outcomes.names.Nodup) : ∃ before after : World, before.tree = w.tree ∧
      after.tree = v.tree ∧ Relocated s.index
        ((s.report.files.filterMap fun f => s.index.bySource? f.1).map Entry.output)
        s.report.files p q before after := by
  have listed : Listed s.index s.report.files := ⟨s.nodup_paths distinct,fun a member => by
    obtain ⟨e,found,_,source⟩ := s.entry counts member
    exact ⟨e,found,source⟩⟩
  rcases run_layOut ran with ⟨read,rfl,_,rfl⟩ |
    ⟨contents,index,line,report,after,_,read,told,renamed,moved,_,tree⟩
  · have none_ : s.contents = [] := Except.ok.inj (s.read.symm.trans read)
    have empty : s.report.files = [] := by
      have paths := s.paths
      rw [none_] at paths
      simpa using paths
    -- With nothing to read there is nothing to move, whatever the index is.
    have still (finals : List Text) :
        (moveAll s.index finals s.report.files q []).run.run v = (.ok (q,[]),v) := by
      rw [empty]
      rfl
    exact ⟨v,v,rfl,rfl,relocated_moveAll listed (still _)⟩
  · obtain ⟨contents_,index_,line_,report_,read_,told_,renamed_⟩ := s
    cases Except.ok.inj (read_.symm.trans read)
    cases told_.symm.trans told
    cases renamed_.symm.trans renamed
    exact ⟨{ w with line := line },after,rfl,tree.symm,relocated_moveAll listed moved⟩

end

namespace Survey
variable {s : Survey c p w}

/-- What the move goes by, read back: the former path of an indexed file that no file belongs to. -/
theorem of_left? (counts : c.target.Counts c.settings.language.package)
    (distinct : p.outcomes.names.Nodup) {e : Entry} {old : Text} (member : e ∈ s.index.all)
    (leaves : left? p ((s.report.files.filterMap fun f => s.index.bySource? f.1).map Entry.output) e =
      some old) : old ∈ s.formers ∧ old ∉ s.finals := by
  obtain ⟨held,unused⟩ := Option.filter_eq_some_iff.1 leaves
  refine ⟨List.mem_filterMap.2 ⟨e,member,held⟩,fun final => ?_⟩
  rw [← mem_finals counts distinct] at final
  simp [final] at unused

theorem left?_of_notMem (counts : c.target.Counts c.settings.language.package)
    (distinct : p.outcomes.names.Nodup) {e : Entry} {old : Text} (member : e ∈ s.index.all)
    (held : p.outputs.get? e.source = some old) (some_ : old ≠ []) (unused : old ∉ s.finals) :
    left? p ((s.report.files.filterMap fun f => s.index.bySource? f.1).map Entry.output) e =
      some old := by
  have other : old ≠ e.output := fun same => unused (same ▸ List.mem_map_of_mem member)
  rw [left?,held,Option.filter_some,if_pos]
  rw [← mem_finals counts distinct] at unused
  simpa [some_,other] using unused

/-- The keys of different final paths are different, and no file leaves one of them. -/
theorem Unaliased.alone (unaliased : s.Unaliased) (counts : c.target.Counts c.settings.language.package)
    (distinct : p.outcomes.names.Nodup) {d e : Entry} (left : d ∈ s.index.all) (right : e ∈ s.index.all) :
    (outputKey p d.output = outputKey p e.output → d = e) ∧ ∀ old,
      left? p ((s.report.files.filterMap fun f => s.index.bySource? f.1).map Entry.output) d = some old →
      outputKey p old ≠ outputKey p e.output := by
  have final : e.output ∈ s.finals := List.mem_map_of_mem right
  constructor
  · intro same
    apply output_inj counts left right
    exact unaliased _ final _ (List.mem_append_right _ (List.mem_map_of_mem left)) same
  · intro old leaves same
    obtain ⟨former,unused⟩ := of_left? counts distinct left leaves
    apply unused
    rwa [unaliased _ final old (List.mem_append_left _ former) same]

end Survey

/-- Where no two paths lead to one place, the files of a project are where they belong after the last
move, with the texts that the renaming made; their former places are free again, unless other files
belong there, and no other file was touched. -/
theorem layOut_lossless (r : Registry) (parsers : Parsers) (language : Text)
    (given : Option LanguageSettings) (target : c.target = r.target parsers language given)
    (distinct : p.outcomes.names.Nodup) (closed : w.tree.Closed) {result later : RunResult}
    (ran : (c.layOut p result).run.run w = (.ok (q,later),v))
    (apart : ∀ f ∈ w.tree.files, v.tree.isFolder f.1 = false) :
    Nonempty (Survey c p w) ∧ ∀ s : Survey c p w, s.Unaliased → s.Lossless q v := by
  have counts : c.target.Counts c.settings.language.package := by
    rw [target]
    exact r.counts_target parsers language given _
  refine ⟨exists_survey ran,fun s unaliased => ?_⟩
  obtain ⟨before,after,same,ended,done⟩ := s.relocated ran counts distinct
  rw [← same] at closed apart
  rw [← ended] at apart
  have known (a : Text) (e : Entry) (found : s.index.bySource? a = some e) := NameIndex.of_bySource? found
  constructor
  · intro a o completed held some_ there
    have member : a ∈ s.report.files.map Prod.fst := Survey.mem_paths.2 ⟨completed,o,held,some_,there⟩
    obtain ⟨e,found,inside,source⟩ := Survey.entry counts member
    obtain ⟨f,file,rfl⟩ := List.mem_map.1 member
    have placed := done.files f file e found fun b _ d other =>
      unaliased.alone counts distinct (known b d other).1 inside
    refine ⟨e,f.2,found,inside,file,ended ▸ placed,done.outputs f.1 member e found,fun unused => ?_⟩
    obtain ⟨g,former,key⟩ := Tree.mem_of_isFile (Survey.isFile member held)
    rw [← same] at former
    have leaves := Survey.left?_of_notMem counts distinct inside (source ▸ held) some_ unused
    -- The place is emptied when the file leaves it, and no file is put there afterwards.
    have gone := done.gone f.1 member e found o leaves (key ▸ closed g former) fun b _ d other equal => by
      obtain ⟨within_,_⟩ := known b d other
      have former_ : o ∈ s.formers := List.mem_filterMap.2 ⟨e,inside,source ▸ held⟩
      have final : d.output ∈ s.finals := List.mem_map_of_mem within_
      apply unused
      rwa [unaliased _ final o (List.mem_append_left _ former_) equal.symm]
    rw [← ended,Tree.exists?,Tree.isFile,gone,← key,apart g former]
    rfl
  · intro k free
    rw [← ended,← same]
    apply done.kept
    intro a _ e found
    obtain ⟨inside,_⟩ := known a e found
    refine ⟨free _ (List.mem_append_right _ (List.mem_map_of_mem inside)),fun old leaves => ?_⟩
    exact free old (List.mem_append_left _ (Survey.of_left? counts distinct inside leaves).1)
  · intro a _ lost
    apply done.others
    intro member
    obtain ⟨_,o,held,some_,there⟩ := Survey.mem_paths.1 member
    rw [lost o held some_] at there
    cases there

namespace Relocation
open Verdict (converter)

/-- The progress after a move, and what the move leaves. -/
def ended (p : Progress) (t : Tree) : Option (Progress × RunResult × World) :=
  match (converter.layOut p {}).run.run { tree := t } with
  | (.ok (q,later),v) => some (q,later,v)
  | (.error _,_) => none

theorem ran_of_ended {p q : Progress} {t : Tree} {later : RunResult} {v : World}
    (ended_ : ended p t = some (q,later,v)) :
    (converter.layOut p {}).run.run { tree := t } = (.ok (q,later),v) := by
  unfold ended at ended_
  split at ended_
  · rename_i same
    cases ended_
    exact same
  · cases ended_

def outputs (former : Text) (other : Text) : Progress where
  id := "s"
  root := "src"
  output := "out"
  outputs := [("a.src",former),("b.src",other)]
  outcomes := [("a.src",.clean),("b.src",.clean)]
  created := 0
  updated := 0

/-- Two files in each other's places. -/
def swapped : Progress := outputs "B.out" "A.out"

def swappedTree : Tree where
  folders := [["out"]]
  files := [(["out","B.out"],.text "class A\n"),(["out","A.out"],.text "class B\n")]

/-- The former path of the second file leads to the place where the first one belongs. -/
def aliased : Progress := outputs "a.out" "x/../A.out"

def aliasedTree : Tree where
  folders := [["out"]]
  files := [(["out","a.out"],.text "class A\n"),(["out","A.out"],.text "class B\n")]

theorem target_converter : converter.target =
    Registry.standard.target Namer.noParsers "plain" (some converter.settings.language) := by
  have none_ : Registry.standard.dialect? "plain" = none := by decide +kernel
  have key : Registry.key "plain" = "plain".toList := by decide +kernel
  unfold Registry.target
  rw [none_,key]
  rfl

end Relocation

/-- Each of two files gets to the place of the other one. -/
theorem layOut_lossless_swapped :
    ∃ q later v, (Verdict.converter.layOut Relocation.swapped {}).run.run { tree := Relocation.swappedTree } =
        (.ok (q,later),v) ∧
      q.outputs = [(("a.src" : Text),("A.out" : Text)),(("b.src" : Text),("B.out" : Text))] ∧
      ∃ s : Survey Verdict.converter Relocation.swapped { tree := Relocation.swappedTree },
        s.Unaliased ∧ s.Lossless q v := by
  have told : (Relocation.ended Relocation.swapped Relocation.swappedTree).any (fun e => decide (
      e.1.outputs = [(("a.src" : Text),("A.out" : Text)),(("b.src" : Text),("B.out" : Text))] ∧
      ∀ f ∈ Relocation.swappedTree.files, e.2.2.tree.isFolder f.1 = false)) = true := by decide +kernel
  obtain ⟨⟨q,later,v⟩,same,shown⟩ := (Option.any_eq_true _ _).1 told
  obtain ⟨outputs,apart⟩ := of_decide_eq_true shown
  have ran := Relocation.ran_of_ended same
  obtain ⟨⟨s⟩,all⟩ := layOut_lossless Registry.standard Namer.noParsers "plain"
    (some Verdict.converter.settings.language) Relocation.target_converter (by decide +kernel)
    (by decide +kernel) ran apart
  have spreads : Verdict.converter.target.Spreads Verdict.converter.settings.language.package
      Naming.Simple := Target.spreads_blocks .braces (by decide) fun _ none_ => by cases none_
  have plain : ∀ f ∈ Relocation.swapped.outputs, Path.Plain f.2 := by decide +kernel
  have unaliased := s.unaliased_of_spreads spreads fun a o held =>
    plain (a,o) ((Table.get?_eq_some (by decide +kernel)).1 held)
  exact ⟨q,later,v,ran,outputs,s,unaliased,all s unaliased⟩

/-- It is not enough that the paths of the files are different texts. -/
theorem layOut_lossless_aliased :
    ¬ ∀ (c : Converter) (r : Registry) (parsers : Parsers) (language : Text)
      (given : Option LanguageSettings) (p q : Progress) (w v : World) (result later : RunResult),
      c.target = r.target parsers language given → p.outcomes.names.Nodup → w.tree.Closed →
      (c.layOut p result).run.run w = (.ok (q,later),v) →
      (∀ f ∈ w.tree.files, v.tree.isFolder f.1 = false) → ∀ s : Survey c p w, s.Lossless q v := by
  intro claim
  have told : (Relocation.ended Relocation.aliased Relocation.aliasedTree).any (fun e => decide (
      e.1.outputs.get? "a.src" = some ("A.out" : Text) ∧
      e.2.2.tree.file? (outputKey Relocation.aliased "A.out") = none ∧
      ∀ f ∈ Relocation.aliasedTree.files, e.2.2.tree.isFolder f.1 = false)) = true := by decide +kernel
  obtain ⟨⟨q,later,v⟩,same,shown⟩ := (Option.any_eq_true _ _).1 told
  obtain ⟨output,lost,apart⟩ := of_decide_eq_true shown
  have ran := Relocation.ran_of_ended same
  obtain ⟨s⟩ := exists_survey ran
  have lossless := claim Verdict.converter Registry.standard Namer.noParsers "plain"
    (some Verdict.converter.settings.language) Relocation.aliased q _ v {} later
    Relocation.target_converter (by decide +kernel) (by decide +kernel) ran apart s
  obtain ⟨e,content,_,_,_,file,given,_⟩ := lossless.placed "a.src" "a.out" (by decide +kernel)
    (by decide +kernel) (by decide +kernel) (by decide +kernel)
  have final : e.output = "A.out".toList := Option.some.inj (given.symm.trans output)
  rw [final,lost] at file
  cases file

end Converter
end Recast
