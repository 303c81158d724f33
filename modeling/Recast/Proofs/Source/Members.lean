import Recast.Proofs.Source.Outline

/-! The members of a type, and what stands in a text when other texts take the places of their
bodies. The lines of a text are cut at the depth of their blocks; an outline that gets a text for
each body gives the cut lines back with the texts between them. -/
namespace Recast.Outline
open Text

/-- A part of a text: a line of the type's own, or the lines of a member's body. -/
inductive Stretch where
  | own (line : Text)
  | member (first : Text) (inner : List Text)
  deriving DecidableEq

namespace Stretch

def lines : Stretch → List Text
  | .own line => [line]
  | .member first inner => first :: inner

def body? : Stretch → Option Text
  | .own _ => none
  | .member first inner => some (first :: inner).flatten

end Stretch

def members (stretches : List Stretch) : List Text := stretches.filterMap Stretch.body?

/-- The parts in their order, with a text in the place of each body. -/
def filled : List Stretch → List Text → Text
  | .own line :: rest, texts => line ++ filled rest texts
  | .member first inner :: rest, t :: texts => closedLike (first :: inner).flatten t ++ filled rest texts
  | _, _ => []

/-- How deep blocks are nested behind some lines. -/
def level (symbols : Symbols) (depth : Int) (ls : List Text) : Int :=
  ls.foldl (fun depth line => depth + Chunk.delta symbols line) depth

/-- The parts of a text that begins at a depth. A body begins on a line that takes the first level to
a deeper one; it stays on deeper levels before its last line, which comes back, or ends the text. -/
inductive Cut (symbols : Symbols) : Int → List Stretch → Prop
  | nil (depth : Int) : Cut symbols depth []
  | own {depth : Int} {line : Text} {rest : List Stretch} :
      ¬ (depth = 1 ∧ 2 ≤ level symbols depth [line]) → Cut symbols (level symbols depth [line]) rest →
      Cut symbols depth (.own line :: rest)
  | member {first : Text} {inner : List Text} {rest : List Stretch} : 2 ≤ level symbols 1 [first] →
      (∀ front, front <+: inner → front ≠ inner → 2 ≤ level symbols 1 (first :: front)) →
      level symbols 1 (first :: inner) ≤ 1 ∨ rest = [] →
      Cut symbols (level symbols 1 (first :: inner)) rest → Cut symbols 1 (.member first inner :: rest)

/-- What an outline shows of the parts, with numbers for the bodies. -/
def shown : Nat → List Stretch → List Line
  | _, [] => []
  | n, .own line :: rest => .own line :: shown n rest
  | n, .member first _ :: rest => .body n (indent first) :: shown (n + 1) rest

theorem level_cons (symbols : Symbols) (depth : Int) (line : Text) (ls : List Text) :
    level symbols depth (line :: ls) = level symbols (depth + Chunk.delta symbols line) ls := rfl

theorem level_singleton (symbols : Symbols) (depth : Int) (line : Text) :
    level symbols depth [line] = depth + Chunk.delta symbols line := rfl

/-- The rest of an open body, what is behind it, and the depth there. -/
structure Closes (symbols : Symbols) (depth : Int) (inner : List Text) (rest : List Stretch) : Prop where
  deep : ∀ front, front <+: inner → front ≠ inner → 2 ≤ level symbols depth front
  ends : level symbols depth inner ≤ 1 ∨ rest = []
  later : Cut symbols (level symbols depth inner) rest

theorem Closes.cons {symbols : Symbols} {depth : Int} {line : Text} {inner : List Text}
    {rest : List Stretch} (open_ : 2 ≤ depth)
    (closes : Closes symbols (depth + Chunk.delta symbols line) inner rest) :
    Closes symbols depth (line :: inner) rest := by
  constructor
  · intro front starts other
    cases front with
    | nil => simpa [level] using open_
    | cons same front =>
      obtain ⟨rfl,inside⟩ := List.cons_prefix_cons.1 starts
      rw [level_cons]
      apply closes.deep front inside
      intro whole
      exact other (by rw [whole])
  · rw [level_cons]
    exact closes.ends
  · rw [level_cons]
    exact closes.later

theorem Closes.member {symbols : Symbols} {first : Text} {inner : List Text} {rest : List Stretch}
    (opens : 2 ≤ level symbols 1 [first]) (closes : Closes symbols (level symbols 1 [first]) inner rest) :
    Cut symbols 1 (.member first inner :: rest) := by
  rw [level_singleton] at closes
  apply Cut.member opens
  · intro front starts other
    rw [level_cons]
    exact closes.deep front starts other
  · rw [level_cons]
    exact closes.ends
  · rw [level_cons]
    exact closes.later

/-- A walk cuts its lines; with an open body it comes to the body's end first. -/
private theorem walk_cut_from (symbols : Symbols) (depth : Int) (count : Nat) (held ls : List Text) :
    (held = [] → ∃ stretches, Cut symbols depth stretches ∧ stretches.flatMap Stretch.lines = ls ∧
      walk symbols depth count [] ls = (shown count stretches,members stretches)) ∧
    (held ≠ [] → 2 ≤ depth → ∃ inner stretches, Closes symbols depth inner stretches ∧
      ls = inner ++ stretches.flatMap Stretch.lines ∧ walk symbols depth count held ls =
        (shown (count + 1) stretches,(held.reverse ++ inner).flatten :: members stretches)) := by
  -- Both go into one induction: a line may open a body, and the line that closes one goes on without.
  induction ls generalizing depth count held with
  | nil =>
    constructor
    · intro _
      exact ⟨[],.nil depth,rfl,rfl⟩
    · intro some_ deep
      refine ⟨[],[],⟨?_,.inr rfl,.nil _⟩,rfl,?_⟩
      · intro front starts other
        exact absurd (List.prefix_nil.1 starts) other
      · simp [walk,some_,shown,members]
  | cons line rest ih =>
    constructor
    · intro _
      rw [walk]
      simp only [List.isEmpty_nil,Bool.not_true,Bool.false_eq_true,if_false]
      split
      · rename_i opens
        simp only [Bool.and_eq_true,decide_eq_true_eq] at opens
        obtain ⟨rfl,deeper⟩ := opens
        obtain ⟨inner,stretches,closes,rfl,same⟩ :=
          (ih (1 + Chunk.delta symbols line) count [line]).2 (by simp) deeper
        rw [← level_singleton] at deeper closes
        refine ⟨.member line inner :: stretches,closes.member deeper,by simp [Stretch.lines],?_⟩
        rw [same]
        rfl
      · rename_i stays
        obtain ⟨stretches,cut,rfl,same⟩ := (ih (depth + Chunk.delta symbols line) count []).1 rfl
        refine ⟨.own line :: stretches,.own ?_ ?_,by simp [Stretch.lines],?_⟩
        · simpa [level_singleton] using stays
        · rwa [level_singleton]
        · rw [same]
          rfl
    · intro some_ open_
      rw [walk]
      simp only [List.isEmpty_eq_false_iff.2 some_,Bool.not_false,if_true]
      split
      -- The line that comes back to the first level is the last one of its body.
      · rename_i back
        obtain ⟨stretches,cut,rfl,same⟩ := (ih (depth + Chunk.delta symbols line) (count + 1) []).1 rfl
        refine ⟨[line],stretches,.cons open_ ⟨?_,.inl ?_,?_⟩,by simp,?_⟩
        · intro front starts other
          exact absurd (List.prefix_nil.1 starts) other
        · simpa [level] using back
        · simpa [level] using cut
        · simp [same]
      · rename_i deep
        obtain ⟨inner,stretches,closes,rfl,same⟩ :=
          (ih (depth + Chunk.delta symbols line) count (line :: held)).2 (by simp) (by omega)
        refine ⟨line :: inner,stretches,closes.cons open_,by simp,?_⟩
        rw [same]
        simp

theorem walk_cut (symbols : Symbols) (ls : List Text) :
    ∃ stretches, Cut symbols 0 stretches ∧ stretches.flatMap Stretch.lines = ls ∧
      walk symbols 0 0 [] ls = (shown 0 stretches,members stretches) :=
  (walk_cut_from symbols 0 0 [] ls).1 rfl

theorem filled_shown (n : Nat) (stretches : List Stretch) {all texts rest : List Text}
    (behind : all.drop n = members stretches) (left : texts.drop n = rest)
    (size : rest.length = (members stretches).length) :
    ((shown n stretches).map (Line.filled all texts)).flatten = filled stretches rest := by
  induction stretches generalizing n rest with
  | nil => cases rest <;> rfl
  | cons stretch stretches ih =>
    cases stretch with
    | own line =>
      have later := ih n behind left size
      rw [shown,List.map_cons,List.flatten_cons,later,filled]
      rfl
    | member first inner =>
      cases rest with
      | nil => cases size
      | cons t rest =>
        obtain ⟨here,further⟩ := getElem?_of_drop behind
        obtain ⟨given,more⟩ := getElem?_of_drop left
        have later := ih (n + 1) further more (Nat.succ.inj size)
        rw [shown,List.map_cons,List.flatten_cons,later,filled,Line.filled,here,given]
        rfl

/-- An outline is undone by what puts texts in the places of its bodies, whatever the texts are: each
of them stands where its body was, and what is between the bodies stays. -/
theorem reassemble_filled (symbols : Symbols) (closing : Text) {text : Text} (feeds : OnlyFeeds text)
    (unmarked : ¬ Marked text) :
    ∃ stretches, Cut symbols 0 stretches ∧ stretches.flatMap Stretch.lines = lines text ∧
      (ofText symbols text).bodies = members stretches ∧
      (∀ translated : List Text, translated.length = (ofText symbols text).bodies.length →
        (∀ t ∈ translated, ¬ Marked t) →
        reassemble closing (ofText symbols text).text translated = filled stretches translated) ∧
      reassemble closing (ofText symbols text).text (ofText symbols text).bodies = text := by
  have closed := feeds.feedLines
  have whole := flatten_lines text
  have free : ∀ line ∈ lines text, ¬ Marked line := by
    intro line member marked
    apply unmarked
    apply marked.of_within
    rw [← whole]
    exact List.infix_of_mem_flatten member
  obtain ⟨stretches,cut,same,walked⟩ := walk_cut symbols (lines text)
  have outline := ofText_walk symbols closed free
  have again := reassemble_ofText symbols closing closed free
  rw [whole] at outline again
  have bodies : (ofText symbols text).bodies = members stretches := by rw [outline,walked]
  refine ⟨stretches,cut,same,bodies,?_,again⟩
  intro translated size clean
  have placed := reassemble_walk symbols closing closed free
    (fun t member i => lacks_marker (clean t member) i) (by rw [walked,size,bodies])
  rw [whole,walked] at placed
  rw [placed]
  apply filled_shown 0 stretches rfl List.drop_zero
  rw [size,bodies]

/-- A body with blocks of its own, whose new text has lost its line ending, and one that is never
closed. -/
theorem reassemble_filled_open :
    let text : Text :=
      "class A \x7b\r\n  f() \x7b\r\n    if (x) \x7b y \x7d\r\n  \x7d\r\n  int z;\n  g() \x7b\n    x"
    let translated : List Text := ["  let f","  let g\n"]
    ∃ stretches, Cut .braces 0 stretches ∧ stretches.flatMap Stretch.lines = lines text ∧
      (ofText .braces text).bodies = members stretches ∧
      filled stretches translated = ("class A \x7b\r\n  let f\r\n  int z;\n  let g\n" : String).toList := by
  intro text translated
  have feeds : OnlyFeeds text := by decide +kernel
  obtain ⟨stretches,cut,same,bodies,placed,_⟩ :=
    reassemble_filled .braces "\x7d" feeds (by decide +kernel)
  refine ⟨stretches,cut,same,bodies,?_⟩
  rw [← placed translated (by decide +kernel) (by decide +kernel)]
  decide +kernel

end Recast.Outline
