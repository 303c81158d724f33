import Mathlib.Data.List.Basic
import Recast.Proofs.Repair
import Recast.Proofs.Text.Respelling

/-! The lines of a replacement. They stay apart from the lines around them as the line did that they
replace, so that behind a line feed the lines of a code remain lines. -/
namespace Recast
open Text

namespace Text

/-- A line that stays apart from what is put behind it. -/
def Fed (line : Text) : Prop := ∃ body, line = body ++ ['\n']

/-- Lines that stay apart from each other; only the last one may have no ending. -/
structure Apart (ls : List Text) : Prop where
  fed : ls.Pairwise fun line _ => Fed line
  ends : ∀ line ∈ ls, Fed line ∨ ending line = []

/-- Lines may go behind a line feed. -/
theorem Lined.append {front back : List Text} (left : Lined front) (right : Lined back)
    (fed : ∀ line ∈ front.getLast?, Fed line) : Lined (front ++ back) := by
  have later {line : Text} {rest : List Text} (fed : ∀ l ∈ (line :: rest).getLast?, Fed l) :
      ∀ l ∈ rest.getLast?, Fed l := by
    cases rest with
    | nil => simp
    | cons next rest => simpa [List.getLast?_cons_cons] using fed
  induction left with
  | nil => exact right
  | @last body unbroken filled =>
    obtain ⟨front,rfl⟩ := fed body rfl
    exact absurd (by simp) (unbroken.notMem (c := '\n') rfl)
  | both unbroken _ ih => exact .both unbroken (ih (later fed))
  | @one body c rest unbroken breaks apart _ ih =>
    refine .one unbroken breaks (fun same line member => ?_) (ih (later fed))
    cases rest with
    | nil =>
      obtain ⟨front,shape⟩ := fed (body ++ [c]) rfl
      have feed : c = '\n' := by simpa using (List.append_inj' shape rfl).2
      rw [same] at feed
      cases feed
    | cons next rest => exact apart same line (by simpa using member)

theorem Fed.lines_append {s : Text} (fed : Fed s) (t : Text) : lines (s ++ t) = lines s ++ lines t := by
  have last : ∀ line ∈ (lines s).getLast?, Fed line := by
    intro line member
    obtain ⟨front,shape⟩ := List.getLast?_eq_some_iff.1 member
    obtain ⟨body,rfl⟩ := fed
    have filled := ne_nil_of_mem_lines (s := body ++ ['\n']) (show line ∈ _ by simp [shape])
    have whole := flatten_lines (body ++ ['\n'])
    rw [shape,List.flatten_append,List.flatten_singleton,
      ← List.dropLast_concat_getLast filled,← List.append_assoc] at whole
    refine ⟨line.dropLast,?_⟩
    rw [← (List.append_inj' whole rfl).2,List.dropLast_concat_getLast]
  have lined := (lined_lines s).append (lined_lines t) last
  simpa [flatten_lines] using lined.lines_flatten

theorem Apart.lines_flatten {ls : List Text} (apart : Apart ls) : lines ls.flatten = ls.flatMap lines := by
  induction ls with
  | nil => rfl
  | cons line rest ih =>
    obtain ⟨first,later⟩ := List.pairwise_cons.1 apart.fed
    have tail := ih ⟨later,fun other member => apart.ends other (by simp [member])⟩
    cases rest with
    | nil => simp
    | cons next rest =>
      rw [List.flatten_cons,(first next (by simp)).lines_append,tail]
      rfl

/-- Others may come in the place of one that stand as it does to what is before and behind. -/
theorem pairwise_exchange {α : Type} {R : α → α → Prop} {front new back : List α} {a : α}
    (all : (front ++ a :: back).Pairwise R) (inside : new.Pairwise R)
    (before : ∀ b, R b a → ∀ c ∈ new, R b c) (behind : ∀ b, R a b → ∀ c ∈ new, R c b) :
    (front ++ new ++ back).Pairwise R := by
  obtain ⟨first,rest,between⟩ := List.pairwise_append.1 all
  obtain ⟨above,last⟩ := List.pairwise_cons.1 rest
  rw [List.append_assoc]
  refine List.pairwise_append.2 ⟨first,List.pairwise_append.2 ⟨inside,last,?_⟩,?_⟩
  · exact fun c middle b later => behind b (above b later) c middle
  · intro b early c member
    rcases List.mem_append.1 member with middle | later
    · exact before b (between b early a (by simp)) c middle
    · exact between b early c (by simp [later])

/-- Other lines may come in the place of one that stay apart where it does. -/
theorem Apart.exchange {ls new : List Text} {place : Nat} {line : Text} (apart : Apart ls)
    (at_ : ls[place]? = some line) (inside : Apart new) (fed : Fed line → ∀ other ∈ new, Fed other) :
    Apart (ls.take place ++ new ++ ls.drop (place + 1)) := by
  have whole : ls = ls.take place ++ line :: ls.drop (place + 1) := by
    obtain ⟨bound,rfl⟩ := List.getElem?_eq_some_iff.1 at_
    rw [List.getElem_cons_drop,List.take_append_drop]
  rw [whole] at apart
  generalize ls.take place = front, ls.drop (place + 1) = back at apart
  refine ⟨pairwise_exchange apart.fed inside.fed (fun _ before _ _ => before) fun _ closed => fed closed,?_⟩
  intro other member
  rcases List.mem_append.1 member with rest | last
  · rcases List.mem_append.1 rest with first | middle
    · exact apart.ends other (by simp [first])
    · exact inside.ends other middle
  · exact apart.ends other (by simp [last])

theorem FeedLines.apart {ls : List Text} (feeds : FeedLines ls) : Apart ls := by
  induction ls with
  | nil => exact ⟨.nil,by simp⟩
  | cons line rest ih =>
    have tail := ih feeds.tail
    have fed (closed : FeedLine line) : Fed line := by
      obtain ⟨front,_,shape⟩ := closed.shape
      exact ⟨front,shape⟩
    refine ⟨List.pairwise_cons.2 ⟨fun other member => ?_,tail.fed⟩,?_⟩
    · exact fed (feeds.head (List.ne_nil_of_mem member))
    · rintro other (_ | ⟨_,later⟩)
      · cases rest with
        | cons next rest => exact .inl (fed feeds.1)
        | nil =>
          rcases feeds with closed | ⟨plain,_⟩
          · exact .inl (fed closed)
          · have none_ := (ending_append (e := []) plain (by simp)).1
            exact .inr (by simpa using none_)
      · exact tail.ends other later

end Text

namespace Patch

/-- The code as a pass begins with it. -/
def ofCode (code : Text) (issues : List Issue) : Patch := { lines := Text.lines code, remaining := issues }

private theorem ending_dropReturns {part : Text} (open_ : '\n' ∉ part) :
    ending (dropEndWhile (· = '\r') part) = [] := by
  unfold ending takeEndWhile dropEndWhile
  rw [List.reverse_reverse,List.reverse_eq_nil_iff]
  cases held : part.reverse.dropWhile (· = '\r') with
  | nil => rfl
  | cons c r =>
    have inside : c ∈ part := by
      rw [← List.mem_reverse]
      exact (List.dropWhile_sublist (decide <| · = '\r')).subset (held ▸ List.mem_cons_self)
    have dark : c ≠ '\r' := by
      have kept := List.head?_dropWhile_not (decide <| · = '\r') part.reverse
      simpa [held] using kept
    have other : c ≠ '\n' := fun same => open_ (same ▸ inside)
    simp [isReturnOrFeed,dark,other]

theorem fed_ending {line : Text} (fed : Fed line) : Fed (ending line) := by
  obtain ⟨body,rfl⟩ := fed
  unfold ending takeEndWhile
  exact ⟨(body.reverse.takeWhile isReturnOrFeed).reverse,by simp [isReturnOrFeed]⟩

theorem substitute?_eq_some {p q : Patch} {place : Nat} {replacement : Text}
    (put : p.substitute? place replacement = some q) : ∃ line, p.lines[place]? = some line ∧
      q.lines = p.lines.take place ++ replacementLines replacement line ++ p.lines.drop (place + 1) ∧
      q.offset = p.offset + (replacementLines replacement line).length - 1 := by
  unfold substitute? at put
  cases at_ : p.lines[place]? with
  | none =>
    rw [at_] at put
    cases put
  | some line =>
    rw [at_] at put
    dsimp only at put
    split at put
    · cases put
    · cases put
      exact ⟨line,rfl,rfl,rfl⟩

/-- A replacement stays apart from what is around it as its line does. -/
theorem apart_replacementLines (replacement line : Text) (ends : Fed line ∨ ending line = []) :
    Apart (replacementLines replacement line) ∧
      (Fed line → ∀ other ∈ replacementLines replacement line, Fed other) := by
  have behind {s e : Text} (fed : Fed e) : Fed (s ++ e) := by
    obtain ⟨body,rfl⟩ := fed
    exact ⟨s ++ body,by simp⟩
  unfold replacementLines
  split
  · exact ⟨⟨.nil,by simp⟩,by simp⟩
  · dsimp only
    generalize listed : (pieces '\n' (dropEnding replacement)).map (dropEndWhile (· = '\r')) = parts
    have open_ : ∀ part ∈ parts, ending part = [] := by
      intro part member
      rw [← listed,List.mem_map] at member
      obtain ⟨piece,inside,rfl⟩ := member
      exact ending_dropReturns (notMem_pieces inside)
    generalize between : (if (ending line).isEmpty then ['\n'] else ending line) = inner
    have inner_ : Fed inner := by
      rw [← between]
      split
      · exact ⟨[],rfl⟩
      · rename_i some_
        exact ends.elim fed_ending fun none_ => absurd (by simp [none_]) some_
    have first : ∀ other ∈ parts.dropLast.map (· ++ inner), Fed other := by
      intro other member
      obtain ⟨part,_,rfl⟩ := List.mem_map.1 member
      exact behind inner_
    have last : ∀ other ∈ (parts.getLast?.map (· ++ ending line)).toList,
        (Fed line → Fed other) ∧ (ending line = [] → ending other = []) := by
      intro other member
      obtain ⟨part,inside,rfl⟩ := Option.map_eq_some_iff.1 (Option.mem_toList.1 member)
      refine ⟨fun fed => behind (fed_ending fed),fun none_ => ?_⟩
      rw [none_,List.append_nil]
      exact open_ part (List.mem_of_getLast? inside)
    refine ⟨⟨List.pairwise_append.2 ⟨?_,?_,fun other before _ _ => first other before⟩,?_⟩,?_⟩
    · exact List.pairwise_of_forall_mem_list fun other before _ _ => first other before
    · cases parts.getLast? with
      | none => exact .nil
      | some part => exact List.pairwise_singleton _ _
    · intro other member
      rcases List.mem_append.1 member with before | behind_
      · exact .inl (first other before)
      · exact ends.imp (last other behind_).1 (last other behind_).2
    · intro fed other member
      rcases List.mem_append.1 member with before | behind_
      · exact first other before
      · exact (last other behind_).1 fed

end Patch

end Recast
