import Recast.Proofs.Source.Partition
import Recast.Proofs.Target.Pairing

/-! Chunks and blocks. A text is well formed exactly if its chunks are; and between two chunks a block
is open exactly where a closing symbol has found none before, since the two make up for each other in
the count. -/
namespace Recast.Chunk
open Text Symbols
variable {settings : LanguageSettings}

/-- The text before a chunk. -/
def before (chunks : List Chunk) (i : Nat) : Text := ((chunks.take i).map Chunk.text).flatten

/-- Settings under which a chunk ends as soon as its blocks are closed. -/
def tight : LanguageSettings where
  target := "plain"
  inputExtension := ".src"
  outputExtension := ".out"
  prompt := "Translate."
  chunkSize := 1

section
variable (single : settings.symbols.Single)
include single

/-- A chunk that can end adds nothing to the level. -/
theorem Full.net {t : Text} (full : Full settings (lines t)) : net (settings.symbols.tokens t) = 0 := by
  have sum (ls : List Text) : Symbols.net (settings.symbols.tokens ls.flatten) =
      (ls.map (delta settings.symbols)).sum := by
    rw [single.tokens_flatten]
    induction ls with
    | nil => rfl
    | cons line ls ih => simp [ih,single.net_tokens]
  rw [← flatten_lines t,sum]
  exact full.2

/-- The words of the chunks but for the last one add nothing. -/
theorem net_of_mem_dropLast (text : Text) :
    ∀ w ∈ ((split settings text).map fun c => settings.symbols.tokens c.text).dropLast, net w = 0 := by
  have full := (greedy_split settings text).full
  rw [← List.map_dropLast] at full ⊢
  intro w member
  obtain ⟨c,inside,rfl⟩ := List.mem_map.1 member
  exact (full c.text (List.mem_map_of_mem inside)).net single

theorem word_before (chunks : List Chunk) (i : Nat) : settings.symbols.word (before chunks i) =
    ((chunks.map fun c => settings.symbols.tokens c.text).take i).flatten := by
  rw [single.word_eq,before,single.tokens_flatten,List.map_map,List.map_take]
  rfl

/-- At the start of a chunk as many blocks are open as closing symbols before it found none. -/
theorem surplus_before (text : Text) {i : Nat} (bound : i < (split settings text).length) :
    let left := surplus 0 (settings.symbols.word (before (split settings text) i))
    left.2 = left.1 := by
  apply surplus_level
  rw [word_before single]
  apply net_flatten
  intro w member
  apply net_of_mem_dropLast single text
  rw [List.dropLast_eq_take]
  apply (List.take_prefix_take_left ?_).subset member
  rw [List.length_map]
  omega

/-- A text is well formed exactly if each of its chunks is. -/
theorem issues_split_iff (text : Text) : settings.symbols.issues text = [] ↔
    ∀ c ∈ split settings text, settings.symbols.issues c.text = [] := by
  have whole : settings.symbols.tokens text =
      ((split settings text).map fun c => settings.symbols.tokens c.text).flatten := by
    conv_lhs => rw [← flatten_split settings text]
    rw [single.tokens_flatten,List.map_map]
    rfl
  have parts := surplus_flatten_iff (net_of_mem_dropLast single text)
  simp only [issues_eq_nil_iff,single.word_eq]
  rw [whole,parts]
  simp

omit single in
/-- Two types, one of them with a block of its own, each of which is a chunk. -/
theorem issues_split_iff_types :
    let text : Text := "a \x7b\n\x7d\nb \x7b\n  \x7b\n  \x7d\n\x7d\n"
    tight.symbols.Single ∧ (split tight text).length = 2 ∧ tight.symbols.issues text = [] ∧
      ∀ c ∈ split tight text, tight.symbols.issues c.text = [] := by
  intro text
  have clean : tight.symbols.issues text = [] := by decide +kernel
  exact ⟨single_braces,by decide +kernel,clean,(issues_split_iff single_braces text).1 clean⟩

/-- A closing symbol without a partner stays without one, however the text goes on. -/
theorem unmatched_before_mono {chunks : List Chunk} {i j : Nat} (before_ : i ≤ j)
    (stray : ∃ n, settings.symbols.unmatched n ∈ settings.symbols.issues (before chunks i)) :
    ∃ n, settings.symbols.unmatched n ∈ settings.symbols.issues (before chunks j) := by
  rw [exists_unmatched_iff,word_before single] at stray ⊢
  obtain ⟨more,longer⟩ := List.take_prefix_take_left before_
    (l := chunks.map fun c => settings.symbols.tokens c.text)
  rw [← longer,List.flatten_append,surplus_append]
  omega

/-- Between two chunks a block is open exactly if a closing symbol before has none to close. So no chunk
begins inside a block exactly if there is no such symbol before the last chunk. -/
theorem unclosed_before_iff (text : Text) :
    let symbols := settings.symbols
    let chunks := split settings text
    (∀ i < chunks.length, (∃ n, symbols.unclosed n ∈ symbols.issues (before chunks i)) ↔
      ∃ n, symbols.unmatched n ∈ symbols.issues (before chunks i)) ∧
    ((∀ i < chunks.length, ∀ n, symbols.unclosed n ∉ symbols.issues (before chunks i)) ↔
      ∀ n, symbols.unmatched n ∉ symbols.issues (before chunks (chunks.length - 1))) := by
  intro symbols chunks
  have each : ∀ i < chunks.length, (∃ n, symbols.unclosed n ∈ symbols.issues (before chunks i)) ↔
      ∃ n, symbols.unmatched n ∈ symbols.issues (before chunks i) := by
    intro i bound
    rw [exists_unclosed_iff,exists_unmatched_iff,surplus_before single text bound]
  refine ⟨each,?_,?_⟩
  · intro closed n stray
    cases held : chunks.length with
    | zero =>
      have none_ := exists_unmatched_iff.1 ⟨n,stray⟩
      rw [word_before single,held] at none_
      exact none_ rfl
    | succ last =>
      have bound : chunks.length - 1 < chunks.length := by omega
      obtain ⟨m,open_⟩ := (each _ bound).2 ⟨n,stray⟩
      exact closed _ bound m open_
  · intro clean i bound n open_
    have sooner : i ≤ chunks.length - 1 := by omega
    obtain ⟨m,stray⟩ := unmatched_before_mono single sooner ((each i bound).1 ⟨n,open_⟩)
    exact clean m stray

omit single in
/-- A closing symbol too many behind the start of the last chunk does no harm. -/
theorem unclosed_before_iff_behind :
    let symbols := tight.symbols
    let text : Text := "a \x7b\n\x7d\nb \x7b\n\x7d\n\x7d\n"
    let chunks := split tight text
    symbols.Single ∧ chunks.length = 3 ∧
      (∀ n, symbols.unmatched n ∉ symbols.issues (before chunks (chunks.length - 1))) ∧
      ∀ i < chunks.length, ∀ n, symbols.unclosed n ∉ symbols.issues (before chunks i) := by
  intro symbols text chunks
  have clean : symbols.issues (before chunks (chunks.length - 1)) = [] := by decide +kernel
  have behind : ∀ n, symbols.unmatched n ∉ symbols.issues (before chunks (chunks.length - 1)) := by
    intro n
    rw [clean]
    exact List.not_mem_nil
  exact ⟨single_braces,by decide +kernel,behind,(unclosed_before_iff single_braces text).2.2 behind⟩

omit single in
/-- The closing symbol on the first line makes up for the opening one on the second, and the chunk ends
inside the block. -/
theorem unclosed_before_stray :
    let symbols := tight.symbols
    let chunks := split tight "\x7d\n\x7b\nx\n\x7d\n"
    symbols.Single ∧ chunks.map Chunk.text = ["\x7d\n\x7b\n","x\n","\x7d\n"] ∧
      symbols.unclosed 2 ∈ symbols.issues (before chunks 1) := by
  intro symbols chunks
  exact ⟨single_braces,by decide +kernel,by decide +kernel⟩

end

end Recast.Chunk
