import Recast.Proofs.Files.Encoding
import Recast.Target.Registry

/-! Spans in order. In each target language the packages and imports of a code are told in the order of the
text and do not overlap, if what a parser outside says of them is in order; to cut a text at such spans loses
nothing of it. -/
namespace Recast
open Text

/-- Spans in the order of the text, none of which overlaps another one. -/
structure Ascending (spans : List Span) : Prop where
  forward : ∀ s ∈ spans, s.1 ≤ s.2
  apart : spans.Pairwise fun s t => s.2 ≤ t.1

theorem Ascending.tail {s : Span} {spans : List Span} (ascending : Ascending (s :: spans)) : Ascending spans :=
  ⟨fun t member => ascending.forward t (by simp [member]),(List.pairwise_cons.1 ascending.apart).2⟩

namespace Target

section Part

/-- A part of a text that is cut at spans: what a span covers, or what lies between two of them. -/
inductive Part where
  | span (s : Text)
  | gap (s : Text)

namespace Part

def text : Part → Text
  | .span s => s
  | .gap s => s

/-- Changes what lies between the spans. -/
def change (f : Text → Text) : Part → Text
  | .span s => s
  | .gap s => f s

end Part

/-- The parts of a text from `place` on. -/
def partsFrom (s : Text) (place : Nat) : List Span → List Part
  | [] => [.gap (s.drop place)]
  | (start,stop) :: rest =>
    .gap ((s.take start).drop place) :: .span ((s.take stop).drop start) :: partsFrom s stop rest

def parts (s : Text) (spans : List Span) : List Part := partsFrom s 0 spans

theorem slice_append_drop {a b : Nat} (le : a ≤ b) (s : Text) : (s.take b).drop a ++ s.drop b = s.drop a := by
  have behind : s.drop b = (s.drop a).drop (b - a) := by rw [List.drop_drop,Nat.add_sub_cancel' le]
  rw [List.drop_take,behind,List.take_append_drop]

variable {spans : List Span}

theorem flatten_partsFrom (ascending : Ascending spans) (s : Text) {place : Nat}
    (ahead : ∀ t ∈ spans, place ≤ t.1) : ((partsFrom s place spans).map Part.text).flatten = s.drop place := by
  induction spans generalizing place with
  | nil => simp [partsFrom,Part.text]
  | cons t spans ih =>
    obtain ⟨start,stop⟩ := t
    have later := ih ascending.tail (List.pairwise_cons.1 ascending.apart).1
    have begins : place ≤ start := ahead (start,stop) (by simp)
    have ends : start ≤ stop := ascending.forward (start,stop) (by simp)
    simp only [partsFrom,List.map_cons,List.flatten_cons,Part.text]
    rw [later,slice_append_drop ends,slice_append_drop begins]

/-- A text that is cut at spans in order loses nothing. -/
theorem flatten_parts (ascending : Ascending spans) (s : Text) : ((parts s spans).map Part.text).flatten = s :=
  flatten_partsFrom ascending s fun _ _ => Nat.zero_le _

end Part

section Lines

theorem ascending_spansFrom (holds : Text → Bool) (place : Nat) (ls : List Text) :
    Ascending (spansFrom holds place ls) ∧ ∀ s ∈ spansFrom holds place ls, place ≤ s.1 := by
  induction ls generalizing place with
  | nil => exact ⟨⟨(fun s member => by cases member),.nil⟩,fun s member => by cases member⟩
  | cons line rest ih =>
    obtain ⟨later,ahead⟩ := ih (place + line.length)
    have short : (dropEnding line).length ≤ line.length := by
      have whole := congrArg List.length (dropEndWhile_append_takeEndWhile isReturnOrFeed line)
      rw [List.length_append] at whole
      exact Nat.le.intro whole
    unfold spansFrom
    dsimp only
    split
    · refine ⟨⟨?_,List.pairwise_cons.2 ⟨fun s member => ?_,later.apart⟩⟩,?_⟩
      · exact List.forall_mem_cons.2 ⟨Nat.le_add_right _ _,later.forward⟩
      · exact le_trans (Nat.add_le_add_left short place) (ahead s member)
      · exact List.forall_mem_cons.2 ⟨Nat.le_refl _,fun s member => Nat.le_of_add_right_le (ahead s member)⟩
    · exact ⟨later,fun s member => Nat.le_of_add_right_le (ahead s member)⟩

theorem ascending_lineSpans (holds : Text → Bool) (code : Text) : Ascending (lineSpans holds code) :=
  (ascending_spansFrom holds 0 (lines code)).1

end Lines

end Target

/-- The import begins before it ends, on lines that are counted from one. -/
structure LocatedImport.Forward (i : LocatedImport) : Prop where
  first : 1 ≤ i.firstLine
  last : i.firstLine < i.lastLine ∨ i.firstLine = i.lastLine ∧ i.firstByte ≤ i.lastByte

/-- The import ends before another one begins. -/
def LocatedImport.Before (i j : LocatedImport) : Prop :=
  i.lastLine < j.firstLine ∨ i.lastLine = j.firstLine ∧ i.lastByte ≤ j.firstByte

/-- Imports do not overlap; they may be told in any order. -/
structure ModuleOutline.Orderly (o : ModuleOutline) : Prop where
  forward : ∀ i ∈ o.imports, i.Forward
  apart : o.imports.Pairwise fun i j => i.Before j ∨ j.Before i

/-- Declarations are told in the order of the code, and they do not overlap. -/
structure Node.Orderly (root : Node) : Prop where
  forward : ∀ d ∈ root.declarations, d.start ≤ d.stop
  apart : root.declarations.Pairwise fun d e => d.stop ≤ e.start

/-- What the parsers say of a code is in order. -/
structure Parsers.Orderly (parsers : Parsers) (code : Text) : Prop where
  outline : ∀ o, parsers.module.outline? code = some o → o.Orderly
  tree : (parsers.tree code).Orderly

namespace Target

section Modules

theorem spanOrder_iff {a b : Span} : spanOrder a b = true ↔ a.1 < b.1 ∨ a.1 = b.1 ∧ a.2 ≤ b.2 := by
  unfold spanOrder
  split <;> simp only [decide_eq_true_eq] <;> omega

theorem spanOrder_total (a b : Span) : spanOrder a b || spanOrder b a := by
  rw [Bool.or_eq_true,spanOrder_iff,spanOrder_iff]
  omega

theorem spanOrder_trans (a b c : Span) (left : spanOrder a b) (right : spanOrder b c) : spanOrder a c := by
  rw [spanOrder_iff] at left right ⊢
  omega

/-- Spans that do not overlap come in order once they are sorted. -/
theorem ascending_sort {spans : List Span} (forward : ∀ s ∈ spans, s.1 ≤ s.2)
    (apart : spans.Pairwise fun s t => s.2 ≤ t.1 ∨ t.2 ≤ s.1) : Ascending (Ordered.sort spanOrder spans) := by
  have perm := Ordered.sort_perm spanOrder spans
  have order := Ordered.pairwise_sort spanOrder_total spanOrder_trans spans
  exact ⟨fun s member => forward s (perm.mem_iff.1 member),
    Ordered.pairwise_of_apart perm forward apart (order.imp spanOrder_iff.1)⟩

/-- Where a byte of a line is, the lines being counted from one. -/
def placeAt? (ls : List Text) (line byte : Nat) : Option Nat :=
  (ls[line - 1]?).map fun text => (ls.take (line - 1)).flatten.length + charsWithin byte text

theorem place?_eq_some {ls : List Text} {i : LocatedImport} {s : Span} (found : place? ls i = some s) :
    placeAt? ls i.firstLine i.firstByte = some s.1 ∧ placeAt? ls i.lastLine i.lastByte = some s.2 := by
  unfold place? at found
  dsimp only at found
  split at found
  · rename_i start stop first last
    cases found
    exact ⟨first,last⟩
  · cases found

/-- A byte that comes later is at no earlier place, even where lines are shorter than they are told to be. -/
theorem placeAt?_mono {ls : List Text} {l b m c start stop : Nat} (counted : 1 ≤ l)
    (order : l < m ∨ l = m ∧ b ≤ c) (first : placeAt? ls l b = some start) (last : placeAt? ls m c = some stop) :
    start ≤ stop := by
  obtain ⟨line,found,rfl⟩ := Option.map_eq_some_iff.1 first
  obtain ⟨other,seen,rfl⟩ := Option.map_eq_some_iff.1 last
  rcases order with before | ⟨rfl,le⟩
  · have whole : (ls.take l).flatten = (ls.take (l - 1)).flatten ++ line := by
      rw [← Nat.sub_add_cancel counted,List.take_add_one,Nat.sub_add_cancel counted,found]
      simp
    have begun : (ls.take l).flatten.length ≤ (ls.take (m - 1)).flatten.length := by
      obtain ⟨more,same⟩ := List.take_prefix_take_left (l := ls) (Nat.le_sub_one_of_lt before)
      rw [← same,List.flatten_append,List.length_append]
      exact Nat.le_add_right _ _
    have short := charsWithin_le b line
    rw [whole,List.length_append] at begun
    omega
  · cases found.symm.trans seen
    exact Nat.add_le_add_left (charsWithin_mono le line) _

section
variable {ls : List Text} {i j : LocatedImport} {s t : Span}

theorem forward_place? (forward : i.Forward) (found : place? ls i = some s) : s.1 ≤ s.2 := by
  obtain ⟨start,stop⟩ := place?_eq_some found
  exact placeAt?_mono forward.first forward.last start stop

theorem before_place? (forward : i.Forward) (before : i.Before j) (found : place? ls i = some s)
    (other : place? ls j = some t) : s.2 ≤ t.1 := by
  have counted : 1 ≤ i.lastLine := by
    obtain ⟨first,last⟩ := forward
    omega
  exact placeAt?_mono counted before (place?_eq_some found).2 (place?_eq_some other).1

end

theorem eq_filterMap_of_mapM {α β : Type} {f : α → Option β} {as : List α} {bs : List β}
    (mapped : as.mapM f = some bs) : bs = as.filterMap f := by
  induction as generalizing bs with
  | nil =>
    cases mapped
    rfl
  | cons a as ih =>
    rw [List.mapM_cons] at mapped
    obtain ⟨b,found,rest⟩ := Option.bind_eq_some_iff.1 mapped
    obtain ⟨others,more,same⟩ := Option.bind_eq_some_iff.1 rest
    cases same
    rw [List.filterMap_cons_some found,ih more]

theorem ascending_modules {parser : ModuleParser} {code : Text} {spans : List Span}
    (orderly : ∀ o, parser.outline? code = some o → o.Orderly) (found : (modules parser).spans code = some spans) :
    Ascending spans := by
  change importSpans parser code = some spans at found
  unfold importSpans at found
  split at found
  · cases found
    exact ascending_lineSpans isImportLine code
  · rename_i o outlined
    obtain ⟨places,mapped,rfl⟩ := Option.map_eq_some_iff.1 found
    obtain ⟨forward,apart⟩ := orderly o outlined
    rw [eq_filterMap_of_mapM mapped]
    refine ascending_sort (fun s member => ?_) (List.pairwise_filterMap.2 ?_)
    · obtain ⟨i,inside,here⟩ := List.mem_filterMap.1 member
      exact forward_place? (forward i inside) here
    · exact apart.imp_of_mem fun {i j} left right order s here t there =>
        order.imp (fun before => before_place? (forward i left) before here there)
          fun before => before_place? (forward j right) before there here

end Modules

theorem ascending_packages {tree : Text → Node} {code : Text} {spans : List Span} (orderly : (tree code).Orderly)
    (found : (packages tree).spans code = some spans) : Ascending spans := by
  cases found
  refine ⟨fun s member => ?_,List.pairwise_map.2 ?_⟩
  · obtain ⟨d,inside,rfl⟩ := List.mem_map.1 member
    exact charsWithin_mono (orderly.forward d inside) code
  · exact orderly.apart.imp fun {d e} before => charsWithin_mono before code

end Target

/-- In every target language that a project can have, the spans of a code are in order. -/
theorem Registry.ascending_spans (r : Registry) {parsers : Parsers} (language : Text)
    (settings : Option LanguageSettings) {code : Text} (orderly : parsers.Orderly code) {spans : List Span}
    (found : (r.target parsers language settings).spans code = some spans) : Ascending spans := by
  have blocks (key : Text) (given : Option LanguageSettings)
      (found : (Dialect.blockTarget key given).spans code = some spans) : Ascending spans := by
    have told : some (Target.lineSpans Target.isStructural code) = some spans := by
      cases given <;> exact found
    cases told
    exact Target.ascending_lineSpans _ code
  unfold target at found
  split at found
  · rename_i dialect _
    cases dialect with
    | blocks => exact blocks "generic" none found
    | modules => exact Target.ascending_modules orderly.outline found
    | packages => exact Target.ascending_packages orderly.tree found
  · exact blocks (key language) settings found

end Recast
