import Recast.Proofs.Rename.Freshness
import Recast.Proofs.Target.Places

/-! Each file of an index has an output of its own: the search for a name that is free comes to an
end, and no output is given twice. -/
namespace Recast

namespace Namer
open Steps

variable {n : Namer} {Name : Text → Prop}

section
variable (counts : ∀ source name i j, Name name →
    n.outputOf source (numbered name i) = n.outputOf source (numbered name j) → i = j)
  (again : ∀ name i, Name name → Name (numbered name i))
include counts again

theorem chosen_free {name : Text} (fine : Name name) (index : NameIndex) (olds : List Text)
    (source old : Text) :
    n.taken index olds source old (n.chosen index olds source old name) = false ∧
      Name (n.chosen index olds source old name) := by
  obtain ⟨free,shape⟩ := chosen_untaken (fun i j same => counts source name i j fine same) index olds old
  refine ⟨free,?_⟩
  rcases shape with same | ⟨i,same⟩
  · rw [same]
    exact fine
  · rw [same]
    exact again name i fine

omit counts again in
/-- An index with one entry for each of some sources, in their order, each with an output of its
own. -/
structure Spaced (n : Namer) (Name : Text → Prop) (sources : List Text) (x : NameIndex) : Prop where
  sources : x.all.map Entry.source = sources
  apart : (x.all.map Entry.output).Nodup
  placed : ∀ e ∈ x.all, ∃ name, Name name ∧ e.output = n.outputOf e.source name

theorem Spaced.register {sources : List Text} {index : NameIndex}
    (spaced : Spaced n Name sources index) (olds : List Text) (f : Unnamed) {name : Text}
    (fine : Name name) : Spaced n Name (sources ++ [f.source]) (n.register index olds f name) := by
  obtain ⟨free,named⟩ := chosen_free counts again fine index olds f.source f.old
  have all := all_register (n := n) index olds f name
  have output : (n.next index olds f name).output ∉ index.all.map Entry.output := by
    intro inside
    obtain ⟨e,member,same⟩ := List.mem_map.1 inside
    have taken : index.hasOutput (n.next index olds f name).output = true :=
      List.any_eq_true.2 ⟨e,member,by simpa using same⟩
    simp only [Namer.taken,Bool.or_eq_false_iff] at free
    exact Bool.false_ne_true (free.1.symm.trans taken)
  refine ⟨?_,?_,?_⟩
  · rw [all,List.map_append,spaced.sources]
    rfl
  · have whole := spaced.apart.concat output
    rw [List.concat_eq_append] at whole
    rw [all,List.map_append]
    exact whole
  · intro e member
    rw [all] at member
    rcases List.mem_append.1 member with before | last
    · exact spaced.placed e before
    · rw [List.mem_singleton.1 last]
      exact ⟨_,named,rfl⟩

/-- The index of some files has an entry for each, and no two entries have one output. -/
theorem obeys_index_spaced {allowed : TalkError → Prop} {files : List (Text × Text)}
    (suggests : ∀ f ∈ n.unnamed files, Obeys (n.suggested f.old f.content) Name allowed) :
    Obeys (n.index files) (fun x => ∃ sources, sources.Perm (files.map Prod.fst) ∧
      Spaced n Name sources x) allowed := by
  have none_ : Spaced n Name [] .empty := ⟨rfl,List.nodup_nil,fun e member => by cases member⟩
  refine (obeys_nameAll (fun done x => Spaced n Name (done.map Unnamed.source) x) suggests
    (fun f _ done index name named spaced => ?_)
    (fun _ _ spaced => ⟨spaced.sources,spaced.apart,spaced.placed⟩) none_).mono
    (fun x spaced => ⟨_,?_,spaced⟩) fun _ h => h
  · rw [List.map_append]
    exact spaced.register counts again _ f named
  unfold unnamed
  rw [List.map_map]
  exact (Ordered.sort_perm _ files).map Prod.fst

end

theorem obeys_index_counts (counts : n.target.Counts n.package) (files : List (Text × Text)) :
    Obeys (n.index files) (fun x => ∃ sources, sources.Perm (files.map Prod.fst) ∧
      Spaced n (fun _ => True) sources x)
      fun e => e = .notText ∧ ∃ s, n.session = some s ∧ ¬ s.service.SendsTexts :=
  obeys_index_spaced (fun source name i j _ => counts (.ofText source) name i j) (fun _ _ _ => trivial)
    fun f _ => obeys_suggested_names f.old f.content

section
variable (spreads : n.target.Spreads n.package Name)
include spreads

theorem name_oldName (source content : Text) : Name (n.oldName source content) := by
  have pascal : Name (Naming.pascal (Path.ofText source).stem) :=
    spreads.simple _ (Naming.simple_pascal _)
  unfold oldName
  split
  · rename_i name found
    split
    · exact pascal
    · rename_i filled
      exact spreads.named content name found (by simpa using filled)
  · exact pascal

theorem obeys_index (files : List (Text × Text)) :
    Obeys (n.index files) (fun x => ∃ sources, sources.Perm (files.map Prod.fst) ∧
      Spaced n Name sources x) fun _ => True := by
  have fine : ∀ f ∈ n.unnamed files, Name f.old := by
    intro f member
    obtain ⟨g,_,rfl⟩ := List.mem_map.1 member
    exact name_oldName spreads g.1 g.2
  refine obeys_index_spaced (fun source => spreads.numbered (.ofText source)) spreads.again
    fun f member => ?_
  exact obeys_suggested_kind (fine f member)
    (fun name identifier => spreads.simple name (.of_isIdentifier identifier)) f.content

end

theorem Spaced.entry {sources : List Text} {x : NameIndex} (spaced : Spaced n Name sources x)
    {source : Text} (member : source ∈ sources) :
    ∃ e, x.bySource? source = some e ∧ e ∈ x.all ∧ e.source = source := by
  rw [← spaced.sources] at member
  obtain ⟨d,inside,same⟩ := List.mem_map.1 member
  obtain ⟨e,found⟩ := NameIndex.exists_bySource? inside
  rw [same] at found
  exact ⟨e,found,NameIndex.of_bySource? found⟩

theorem Spaced.output_inj {sources : List Text} {x : NameIndex} (spaced : Spaced n Name sources x)
    {d e : Entry} (left : d ∈ x.all) (right : e ∈ x.all) (same : d.output = e.output) : d = e :=
  List.inj_on_of_nodup_map spaced.apart left right same

end Namer

open Steps in
/-- The index of the files of a project comes about, whatever names are suggested. The search for a
name that is free ends after one candidate more than there are outputs, new names and old names, and
no two entries have one output. -/
theorem Registry.distinct_index (r : Registry) (parsers : Parsers) (language : Text)
    (settings : Option LanguageSettings) (package : Option Text) (session : Option Session)
    (files : List (Text × Text)) :
    let n : Namer := ⟨r.target parsers language settings,package,session⟩
    (∀ index olds source old name, ∃ i, Namer.Ends (n.taken index olds source old) name 1 i ∧
      i ≤ Namer.claims index olds + 1 ∧ n.chosen index olds source old name =
        if n.taken index olds source old name then Namer.numbered name i else name) ∧
    Obeys (n.index files)
      (fun x => (x.all.map Entry.source).Perm (files.map Prod.fst) ∧ (x.all.map Entry.output).Nodup)
      fun e => e = .notText ∧ ∃ s, session = some s ∧ ¬ s.service.SendsTexts := by
  intro n
  have counts := r.counts_target parsers language settings package
  constructor
  · intro index olds source old name
    exact Namer.chosen_ends index olds source old name fun i j => counts (.ofText source) name i j
  refine (Namer.obeys_index_counts counts files).mono (fun x ⟨sources,same,told⟩ => ?_) fun _ h => h
  rw [told.sources]
  exact ⟨same,told.apart⟩

/-- Names that differ until they are written in small letters, and one that looks like a numbered
name. -/
theorem Registry.distinct_index_snake :
    let files : List (Text × Text) := [("a.src","class HttpServer"),("b.src","class HTTPServer"),
      ("c.src","class HttpServer_1"),("d.src","class Http_Server")]
    let outputs : List Text :=
      ["http_server.py","http_server_1.py","http_server_1_1.py","http_server_2.py"]
    let n : Namer := ⟨Registry.standard.target Namer.noParsers "python" none,none,none⟩
    ∃ x line, (n.index files).run.run {} = (.ok x,line) ∧ x.all.map Entry.output = outputs ∧
      (x.all.map Entry.output).Nodup := by
  intro files outputs n
  have ran : (match ((n.index files).run.run {}).1 with
    | .ok x => x.all.map Entry.output
    | .error _ => []) = outputs := by decide +kernel
  have told := (Registry.distinct_index Registry.standard Namer.noParsers "python" none none none files).2
  cases same : (n.index files).run.run {} with
  | mk r line =>
    rw [same] at ran
    cases r with
    | ok x => exact ⟨x,line,rfl,ran,(told.ok same).2⟩
    | error e => exact absurd ran (List.cons_ne_nil _ _).symm

end Recast
