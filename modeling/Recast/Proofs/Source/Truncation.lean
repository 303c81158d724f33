import Mathlib.Data.List.Infix
import Mathlib.Data.List.TakeWhile
import Mathlib.Order.Bounds.Basic
import Recast.Proofs.Target.Grammar

/-! Cutting a text back to its last block that is closed. Up to the closing symbol all of it is kept, and
of what follows only blanks on the same line. What is kept is kept again, also when more text follows,
unless this text turns the end of what was kept into an opening symbol. -/
namespace Recast.Symbols
open Text

variable {symbols : Symbols}

/-- A closing symbol ends at this place and closes a block: when it is reached, an opening symbol has been
read and a balanced word behind it. -/
def ClosesAt (symbols : Symbols) (code : Text) (cut : Nat) : Prop :=
  ∃ front inner rest, symbols.Reads code (front ++ .opening :: inner) (symbols.closing ++ rest) ∧
    Balanced inner ∧ ¬ symbols.opening <+: symbols.closing ++ rest ∧ cut + rest.length = code.length

section Places

/-- The same where `held` blocks are open before the text. -/
def ClosesFrom (symbols : Symbols) (held : Nat) (s : Text) (cut : Nat) : Prop :=
  ∃ found rest, symbols.Reads s found (symbols.closing ++ rest) ∧ (surplus held found).2 ≠ 0 ∧
    ¬ symbols.opening <+: symbols.closing ++ rest ∧ cut + rest.length = s.length

theorem closesAt_iff {code : Text} {cut : Nat} : symbols.ClosesAt code cut ↔ symbols.ClosesFrom 0 code cut := by
  constructor
  · rintro ⟨front,inner,rest,reads,balanced,first,place⟩
    refine ⟨_,rest,reads,?_,first,place⟩
    rw [balanced.surplus_unclosed]
    exact Nat.succ_ne_zero _
  · rintro ⟨found,rest,reads,open_,first,place⟩
    obtain ⟨front,inner,rfl,balanced⟩ := exists_unclosed open_
    exact ⟨front,inner,rest,reads,balanced,first,place⟩

theorem not_closesFrom_nil (held cut : Nat) : ¬ symbols.ClosesFrom held [] cut := by
  rintro ⟨found,rest,reads,_⟩
  have empty := List.suffix_nil.1 reads.suffix
  exact symbols.closing_ne_nil (List.append_eq_nil_iff.1 empty).1

theorem closesFrom_opening (held : Nat) (s : Text) (cut : Nat) :
    symbols.ClosesFrom held (symbols.opening ++ s) cut ↔
      ∃ n, symbols.ClosesFrom (held + 1) s n ∧ cut = symbols.opening.length + n := by
  constructor
  · rintro ⟨found,rest,reads,open_,first,place⟩
    rcases reads.of_opening with ⟨_,same⟩ | ⟨later,rfl,behind⟩
    · exact absurd ⟨s,same.symm⟩ first
    · have size := behind.suffix.length_le
      rw [List.length_append] at place size
      exact ⟨s.length - rest.length,⟨later,rest,behind,open_,first,by omega⟩,by omega⟩
  · rintro ⟨n,⟨found,rest,reads,open_,first,place⟩,rfl⟩
    exact ⟨_,rest,.opening reads,open_,first,by rw [List.length_append]; omega⟩

theorem closesFrom_closing (held : Nat) {s : Text} (unopened : ¬ symbols.opening <+: symbols.closing ++ s)
    (cut : Nat) : symbols.ClosesFrom held (symbols.closing ++ s) cut ↔
      (held ≠ 0 ∧ cut = symbols.closing.length) ∨
        ∃ n, symbols.ClosesFrom (held - 1) s n ∧ cut = symbols.closing.length + n := by
  have behind (found : List Token) : (surplus held (.closing :: found)).2 = (surplus (held - 1) found).2 := by
    cases held <;> rfl
  constructor
  · rintro ⟨found,rest,reads,open_,first,place⟩
    rcases reads.of_closing unopened with ⟨rfl,same⟩ | ⟨later,rfl,further⟩
    · rw [List.append_cancel_left same,List.length_append] at place
      exact .inl ⟨open_,by omega⟩
    · have size := further.suffix.length_le
      rw [List.length_append] at place size
      rw [behind] at open_
      exact .inr ⟨s.length - rest.length,⟨later,rest,further,open_,first,by omega⟩,by omega⟩
  · rintro (⟨open_,rfl⟩ | ⟨n,⟨found,rest,reads,open_,first,place⟩,rfl⟩)
    · exact ⟨[],s,.stop _,open_,unopened,by rw [List.length_append]⟩
    · rw [← behind] at open_
      exact ⟨_,rest,.closing unopened reads,open_,first,by rw [List.length_append]; omega⟩

theorem closesFrom_other (held : Nat) {c : Char} {s : Text} (unopened : ¬ symbols.opening <+: c :: s)
    (unclosed : ¬ symbols.closing <+: c :: s) (cut : Nat) : symbols.ClosesFrom held (c :: s) cut ↔
      ∃ n, symbols.ClosesFrom held s n ∧ cut = 1 + n := by
  constructor
  · rintro ⟨found,rest,reads,open_,first,place⟩
    rcases reads.of_other unopened unclosed with ⟨_,same⟩ | reads
    · exact absurd ⟨rest,same⟩ unclosed
    · have size := reads.suffix.length_le
      rw [List.length_append] at size
      rw [List.length_cons] at place
      exact ⟨s.length - rest.length,⟨found,rest,reads,open_,first,by omega⟩,by omega⟩
  · rintro ⟨n,⟨found,rest,reads,open_,first,place⟩,rfl⟩
    exact ⟨found,rest,.other unopened unclosed reads,open_,first,by rw [List.length_cons]; omega⟩

end Places

section Search

theorem lastClose?_skip (held place : Nat) (found : Option Nat) (skip : Nat) (s : Text) :
    symbols.lastClose? held place found skip s =
      symbols.lastClose? held (place + skip) found 0 (s.drop skip) := by
  induction skip generalizing place s with
  | zero => rfl
  | succ skip ih =>
    cases s with
    | nil => rfl
    | cons c r =>
      rw [lastClose?,ih,List.drop_succ_cons,Nat.add_assoc,Nat.add_comm 1]

theorem lastClose?_opening (held place : Nat) (found : Option Nat) (s : Text) :
    symbols.lastClose? held place found 0 (symbols.opening ++ s) =
      symbols.lastClose? (held + 1) (place + symbols.opening.length) found 0 s := by
  have token := token?_eq_opening (List.prefix_append symbols.opening s)
  obtain ⟨c,w,shape⟩ := List.exists_cons_of_ne_nil symbols.opening_ne_nil
  rw [shape,List.cons_append] at token ⊢
  rw [lastClose?,token]
  dsimp only
  rw [shape,List.length_cons,Nat.add_sub_cancel,lastClose?_skip,List.drop_left,Nat.add_assoc,Nat.add_comm 1]

theorem lastClose?_closing (held place : Nat) (found : Option Nat) {s : Text}
    (unopened : ¬ symbols.opening <+: symbols.closing ++ s) :
    symbols.lastClose? held place found 0 (symbols.closing ++ s) =
      symbols.lastClose? (held - 1) (place + symbols.closing.length)
        (if 0 < held then some (place + symbols.closing.length) else found) 0 s := by
  have token := token?_eq_closing unopened (List.prefix_append symbols.closing s)
  obtain ⟨c,w,shape⟩ := List.exists_cons_of_ne_nil symbols.closing_ne_nil
  rw [shape,List.cons_append] at token ⊢
  rw [lastClose?,token]
  dsimp only
  rw [shape,List.length_cons,Nat.add_sub_cancel,lastClose?_skip,List.drop_left,Nat.add_assoc,Nat.add_comm 1]

theorem lastClose?_other (held place : Nat) (found : Option Nat) {c : Char} {s : Text}
    (unopened : ¬ symbols.opening <+: c :: s) (unclosed : ¬ symbols.closing <+: c :: s) :
    symbols.lastClose? held place found 0 (c :: s) = symbols.lastClose? held (place + 1) found 0 s := by
  rw [lastClose?,token?_eq_none unopened unclosed]

/-- The search finds the last place, or what it was given if there is none. -/
def Finds (symbols : Symbols) (held place : Nat) (found : Option Nat) (s : Text) : Prop :=
  (∃ n, IsGreatest {n | symbols.ClosesFrom held s n} n ∧
    symbols.lastClose? held place found 0 s = some (place + n)) ∨
  (∀ n, ¬ symbols.ClosesFrom held s n) ∧ symbols.lastClose? held place found 0 s = found

/-- The last place of all is the last one behind the beginning. -/
theorem isGreatest_behind {places behind : Nat → Prop} {size n : Nat}
    (iff : ∀ k, places k ↔ ∃ m, behind m ∧ k = size + m) (last : IsGreatest {m | behind m} n) :
    IsGreatest {k | places k} (size + n) := by
  refine ⟨(iff _).2 ⟨n,last.1,rfl⟩,fun k other => ?_⟩
  obtain ⟨m,further,rfl⟩ := (iff k).1 other
  exact Nat.add_le_add_left (last.2 further) size

theorem finds (s : Text) (held place : Nat) (found : Option Nat) : symbols.Finds held place found s := by
  induction s using reading_induction symbols generalizing held place found with
  | nil => exact .inr ⟨not_closesFrom_nil held,rfl⟩
  | opening s ih =>
    have behind := @closesFrom_opening symbols held s
    rcases ih (held + 1) (place + symbols.opening.length) found with ⟨n,last,same⟩ | ⟨none_,same⟩
    · exact .inl ⟨_,isGreatest_behind behind last,by rw [lastClose?_opening,same,Nat.add_assoc]⟩
    · refine .inr ⟨fun k other => ?_,by rw [lastClose?_opening,same]⟩
      obtain ⟨m,further,_⟩ := (behind k).1 other
      exact none_ m further
  | closing s unopened ih =>
    rcases ih (held - 1) (place + symbols.closing.length)
        (if 0 < held then some (place + symbols.closing.length) else found) with
      ⟨n,⟨closes,last⟩,same⟩ | ⟨none_,same⟩
    · refine .inl ⟨symbols.closing.length + n,
        ⟨(closesFrom_closing _ unopened _).2 (.inr ⟨n,closes,rfl⟩),?_⟩,?_⟩
      · intro k other
        rcases (closesFrom_closing _ unopened _).1 other with ⟨_,rfl⟩ | ⟨m,further,rfl⟩
        · exact Nat.le_add_right _ _
        · exact Nat.add_le_add_left (last further) _
      · rw [lastClose?_closing _ _ _ unopened,same,Nat.add_assoc]
    by_cases open_ : held = 0
    · refine .inr ⟨fun k other => ?_,?_⟩
      · rcases (closesFrom_closing _ unopened _).1 other with ⟨filled,_⟩ | ⟨m,further,_⟩
        · exact filled open_
        · exact none_ m further
      · rw [lastClose?_closing _ _ _ unopened,same,if_neg (by omega)]
    -- No later symbol closes a block, so it is the one that the text begins with.
    · refine .inl ⟨symbols.closing.length,⟨(closesFrom_closing _ unopened _).2 (.inl ⟨open_,rfl⟩),?_⟩,?_⟩
      · intro k other
        rcases (closesFrom_closing _ unopened _).1 other with ⟨_,rfl⟩ | ⟨m,further,_⟩
        · exact Nat.le_refl _
        · exact absurd further (none_ m)
      · rw [lastClose?_closing _ _ _ unopened,same,if_pos (by omega)]
  | other c s unopened unclosed ih =>
    have behind := closesFrom_other held unopened unclosed
    rcases ih held (place + 1) found with ⟨n,last,same⟩ | ⟨none_,same⟩
    · exact .inl ⟨_,isGreatest_behind behind last,
        by rw [lastClose?_other _ _ _ unopened unclosed,same,Nat.add_assoc]⟩
    · refine .inr ⟨fun k other => ?_,by rw [lastClose?_other _ _ _ unopened unclosed,same]⟩
      obtain ⟨m,further,_⟩ := (behind k).1 other
      exact none_ m further

/-- The place that is found is the last one at which a block is closed. -/
theorem lastClose?_eq_some_iff {code : Text} {cut : Nat} :
    symbols.lastClose? 0 0 none 0 code = some cut ↔ IsGreatest {n | symbols.ClosesAt code n} cut := by
  simp only [closesAt_iff]
  rcases @finds symbols code 0 0 none with ⟨n,greatest,same⟩ | ⟨none_,same⟩
  · rw [same,Nat.zero_add,Option.some.injEq]
    exact ⟨fun equal => equal ▸ greatest,fun other => greatest.unique other⟩
  · rw [same]
    exact ⟨fun equal => (by cases equal),fun other => absurd other.1 (none_ cut)⟩

theorem lastClose?_eq_none_iff {code : Text} :
    symbols.lastClose? 0 0 none 0 code = none ↔ ∀ n, ¬ symbols.ClosesAt code n := by
  simp only [closesAt_iff]
  rcases @finds symbols code 0 0 none with ⟨n,greatest,same⟩ | ⟨none_,same⟩
  · rw [same]
    exact ⟨fun equal => (by cases equal),fun none_ => absurd greatest.1 (none_ n)⟩
  · exact ⟨fun _ => none_,fun _ => same⟩

end Search

section Blanks

/-- The blanks that a text begins with, up to the end of the line, if nothing else stands there. -/
def blankEnd (rest : Text) : Text :=
  if blank (rest.takeWhile (· ≠ '\n')) then rest.take ((rest.takeWhile (· ≠ '\n')).length + 1) else []

theorem truncate_eq (code : Text) : symbols.truncate code =
    match symbols.lastClose? 0 0 none 0 code with
    | none => code
    | some cut => code.take cut ++ blankEnd (code.drop cut) := by
  unfold truncate blankEnd
  cases symbols.lastClose? 0 0 none 0 code with
  | none => rfl
  | some cut =>
    dsimp only
    split
    · rfl
    · rw [List.append_nil]

theorem takeWhile_append_feed (rest : Text) :
    rest.take ((rest.takeWhile (· ≠ '\n')).length + 1) = rest.takeWhile (· ≠ '\n') ∨
      rest.take ((rest.takeWhile (· ≠ '\n')).length + 1) = rest.takeWhile (· ≠ '\n') ++ ['\n'] := by
  induction rest with
  | nil => exact .inl rfl
  | cons c rest ih =>
    by_cases feed : c = '\n'
    · subst feed
      exact .inr rfl
    · have passed : (c :: rest).takeWhile (· ≠ '\n') = c :: rest.takeWhile (· ≠ '\n') := by simp [feed]
      rw [passed,List.length_cons,List.take_succ_cons]
      exact ih.imp (congrArg (c :: ·)) (congrArg (c :: ·))

theorem notMem_takeWhile_feed (rest : Text) : '\n' ∉ rest.takeWhile (· ≠ '\n') :=
  fun member => by simpa using List.mem_takeWhile_imp member

theorem blank_blankEnd (rest : Text) : blank (blankEnd rest) = true ∧ '\n' ∉ (blankEnd rest).dropLast := by
  unfold blankEnd
  split
  · rename_i dark
    rcases takeWhile_append_feed rest with same | same
    · rw [same]
      exact ⟨dark,fun member => notMem_takeWhile_feed rest (List.mem_of_mem_dropLast member)⟩
    · rw [same,List.dropLast_concat]
      refine ⟨?_,notMem_takeWhile_feed rest⟩
      unfold blank at dark ⊢
      rw [List.all_append,dark]
      rfl
  · exact ⟨rfl,List.not_mem_nil⟩

theorem blankEnd_self {gap : Text} (dark : blank gap = true) (line : '\n' ∉ gap.dropLast) :
    blankEnd gap = gap := by
  have inside : blank (gap.takeWhile (· ≠ '\n')) = true :=
    List.all_eq_true.2 fun c member => List.all_eq_true.1 dark c ((List.takeWhile_sublist _).mem member)
  unfold blankEnd
  rw [if_pos inside]
  rcases List.eq_nil_or_concat gap with rfl | ⟨front,c,rfl⟩
  · rfl
  · rw [List.concat_eq_append] at line ⊢
    rw [List.dropLast_concat] at line
    have passed : ∀ d ∈ front, decide (d ≠ '\n') = true := fun d member => by
      simpa using fun feed : d = '\n' => line (feed ▸ member)
    apply List.take_of_length_le
    rw [List.takeWhile_append_of_pos passed,List.length_append,List.length_append,List.length_singleton]
    omega

theorem blank_drop (k : Nat) {gap : Text} (dark : blank gap = true) (line : '\n' ∉ gap.dropLast) :
    blank (gap.drop k) = true ∧ '\n' ∉ (gap.drop k).dropLast := by
  refine ⟨List.all_eq_true.2 fun c member => List.all_eq_true.1 dark c ((List.drop_sublist k gap).mem member),?_⟩
  by_cases empty : gap.drop k = []
  · simp [empty]
  · intro member
    rw [← List.take_append_drop k gap,List.dropLast_append_of_ne_nil empty] at line
    exact line (List.mem_append_right _ member)

end Blanks

section Keeping
variable {code : Text} {cut : Nat}

/-- A block that is closed in a text is closed in every text that has the same beginning, if no opening
symbol begins there that the first text does not have. -/
theorem ClosesAt.exchange (closes : symbols.ClosesAt code cut) {other : Text} (same : code.take cut <+: other)
    (alike : ∀ i, i + symbols.closing.length ≤ cut → symbols.opening <+: other.drop i →
      symbols.opening <+: code.drop i) : symbols.ClosesAt other cut := by
  obtain ⟨front,inner,rest,reads,balanced,first,place⟩ := closes
  obtain ⟨before,rfl,again⟩ := reads.exchange
  rw [List.length_append,List.length_append] at place
  have cutAt : cut = (before ++ symbols.closing).length := by
    rw [List.length_append]
    omega
  rw [← List.append_assoc,cutAt,List.take_left] at same
  obtain ⟨next,rfl⟩ := same
  rw [List.append_assoc] at alike ⊢
  rw [List.length_append] at cutAt
  -- An opening symbol at an end of the beginning stands at the place where this end begins.
  have opened (y : Text) (ends : y <:+ before) (starts : symbols.opening <+: y ++ (symbols.closing ++ next)) :
      symbols.opening <+: y ++ (symbols.closing ++ rest) := by
    obtain ⟨x,rfl⟩ := ends
    have told := alike x.length (by rw [cutAt,List.length_append]; omega)
    rw [List.append_assoc,List.append_assoc,List.drop_left,List.drop_left] at told
    exact told starts
  refine ⟨front,inner,next,again _ fun y ends _ => ⟨opened y ends,fun starts => ?_⟩,balanced,
    fun starts => first (opened [] (List.nil_suffix) starts),?_⟩
  · -- A closing symbol is no longer than what is there up to the cut.
    rw [← List.append_assoc] at starts ⊢
    have bound : symbols.closing.length ≤ (y ++ symbols.closing).length := by
      rw [List.length_append]
      omega
    exact (List.prefix_of_prefix_length_le starts (List.prefix_append _ _) bound).trans (List.prefix_append _ _)
  · rw [List.length_append,List.length_append]
    omega

theorem ClosesAt.le (closes : symbols.ClosesAt code cut) : cut ≤ code.length := by
  obtain ⟨_,_,rest,_,_,_,place⟩ := closes
  omega

theorem ClosesAt.shape (closes : symbols.ClosesAt code cut) :
    ∃ before, code.take cut = before ++ symbols.closing ∧ cut = before.length + symbols.closing.length := by
  obtain ⟨_,_,rest,reads,_,_,place⟩ := closes
  obtain ⟨before,rfl⟩ := reads.suffix
  rw [List.length_append,List.length_append] at place
  have cutAt : cut = (before ++ symbols.closing).length := by
    rw [List.length_append]
    omega
  refine ⟨before,?_,cutAt.trans List.length_append⟩
  rw [← List.append_assoc,cutAt,List.take_left]

/-- Of a text in which a block is closed, everything up to there is kept. -/
theorem ClosesAt.kept (closes : symbols.ClosesAt code cut) : code.take cut <+: symbols.truncate code := by
  rw [truncate_eq]
  cases found : symbols.lastClose? 0 0 none 0 code with
  | none => exact List.take_prefix _ _
  | some last =>
    have later := (lastClose?_eq_some_iff.1 found).2 closes
    exact (List.take_prefix_take_left later).trans (List.prefix_append _ _)

theorem truncate_of_greatest (last : IsGreatest {n | symbols.ClosesAt code n} cut) :
    symbols.truncate code = code.take cut ++ blankEnd (code.drop cut) := by
  rw [truncate_eq,lastClose?_eq_some_iff.2 last]

theorem truncate_of_none (none_ : ∀ n, ¬ symbols.ClosesAt code n) : symbols.truncate code = code := by
  rw [truncate_eq,lastClose?_eq_none_iff.2 none_]

theorem truncate_truncate (symbols : Symbols) (code : Text) :
    symbols.truncate (symbols.truncate code) = symbols.truncate code := by
  cases found : symbols.lastClose? 0 0 none 0 code with
  | none =>
    have whole := truncate_of_none (lastClose?_eq_none_iff.1 found)
    rw [whole,whole]
  | some cut =>
    have greatest := lastClose?_eq_some_iff.1 found
    have begins := symbols.truncate_prefix code
    have shape := truncate_of_greatest greatest
    have again : symbols.ClosesAt (symbols.truncate code) cut :=
      greatest.1.exchange greatest.1.kept fun i _ starts => starts.trans (begins.drop i)
    generalize symbols.truncate code = r at *
    rw [truncate_eq]
    cases other : symbols.lastClose? 0 0 none 0 r with
    | none => rfl
    | some last =>
      -- The blanks behind a closing symbol may hold another one; what follows it is blank as well.
      have later := (lastClose?_eq_some_iff.1 other).2 again
      obtain ⟨dark,line⟩ := blank_blankEnd (code.drop cut)
      have behind : r.drop last = (blankEnd (code.drop cut)).drop (last - cut) := by
        rw [shape,List.drop_append,List.length_take_of_le greatest.1.le,
          List.drop_eq_nil_of_le ((List.length_take_le _ _).trans later),List.nil_append]
      obtain ⟨inside,end_⟩ := blank_drop (last - cut) dark line
      dsimp only
      rw [behind,blankEnd_self inside end_,← behind,List.take_append_drop]

/-- An opening symbol begins no later than the closing one that ends at `cut`, and reaches from a text into
what follows it. -/
def Straddles (symbols : Symbols) (cut : Nat) (r more : Text) : Prop :=
  ∃ i, i + symbols.closing.length ≤ cut ∧ symbols.opening <+: (r ++ more).drop i ∧
    r.length < i + symbols.opening.length

/-- Such an opening symbol holds the closing one, and more behind it. -/
theorem ClosesAt.straddled (closes : symbols.ClosesAt code cut) {r more : Text} (begins : code.take cut <+: r)
    (straddles : symbols.Straddles cut r more) :
    ∃ a b, b ≠ [] ∧ symbols.opening = a ++ symbols.closing ++ b := by
  obtain ⟨before,front,rfl⟩ := closes.shape
  obtain ⟨i,bound,starts,reaches⟩ := straddles
  rw [front] at begins
  obtain ⟨gap,rfl⟩ := begins
  obtain ⟨x,y,rfl,rfl⟩ : ∃ x y, before = x ++ y ∧ x.length = i :=
    ⟨before.take i,before.drop i,(List.take_append_drop i before).symm,List.length_take_of_le (by omega)⟩
  rw [List.append_assoc,List.append_assoc,List.append_assoc,List.drop_left] at starts
  simp only [List.length_append] at reaches
  have inside : y ++ (symbols.closing ++ gap) <+: symbols.opening := by
    refine List.prefix_of_prefix_length_le (List.prefix_append _ more) ?_ ?_
    · simpa using starts
    · rw [List.length_append,List.length_append]
      omega
  obtain ⟨b,same⟩ := inside
  refine ⟨y,gap ++ b,fun empty => ?_,by rw [← same]; simp⟩
  obtain ⟨rfl,rfl⟩ := List.append_eq_nil_iff.1 empty
  have size := congrArg List.length same
  simp only [List.length_append,List.length_nil] at size reaches
  omega

/-- What is kept up to a closed block stays closed when more text follows that no opening symbol reaches
into. -/
theorem ClosesAt.follows (closes : symbols.ClosesAt code cut) {r : Text} (begins : r <+: code)
    (kept : code.take cut <+: r) {more : Text} (apart : ¬ symbols.Straddles cut r more) :
    symbols.ClosesAt (r ++ more) cut := by
  refine closes.exchange (kept.trans (List.prefix_append _ _)) fun i bound starts => ?_
  have inside : i + symbols.opening.length ≤ r.length :=
    Nat.le_of_not_lt fun reaches => apart ⟨i,bound,starts,reaches⟩
  rw [List.drop_append_of_le_length (by omega)] at starts
  exact (List.prefix_of_prefix_length_le starts (List.prefix_append _ _)
    (by rw [List.length_drop]; omega)).trans (begins.drop i)

/-- A text is cut back behind its last block that is closed, but for blanks on the same line. Cut back again
it stays, and where more text follows it keeps everything up to that block, unless an opening symbol that
holds the closing one reaches into this text. -/
theorem truncate_keeps (symbols : Symbols) (code : Text) :
    let r := symbols.truncate code
    r <+: code ∧ symbols.truncate r = r ∧ ((∀ n, ¬ symbols.ClosesAt code n) → r = code) ∧
      ∀ cut, IsGreatest {n | symbols.ClosesAt code n} cut →
        (∃ gap, r = code.take cut ++ gap ∧ blank gap = true ∧ '\n' ∉ gap.dropLast ∧
          (blank ((code.drop cut).takeWhile (· ≠ '\n')) = false → gap = [])) ∧
        ∀ more, code.take cut <+: symbols.truncate (r ++ more) ∨ symbols.Straddles cut r more ∧
          ∃ a b, b ≠ [] ∧ symbols.opening = a ++ symbols.closing ++ b := by
  intro r
  refine ⟨symbols.truncate_prefix code,truncate_truncate symbols code,truncate_of_none,fun cut last => ⟨?_,?_⟩⟩
  · obtain ⟨dark,line⟩ := blank_blankEnd (code.drop cut)
    refine ⟨blankEnd (code.drop cut),truncate_of_greatest last,dark,line,fun other => ?_⟩
    rw [blankEnd,other]
    rfl
  · intro more
    by_cases straddles : symbols.Straddles cut r more
    · exact .inr ⟨straddles,last.1.straddled last.1.kept straddles⟩
    · have closes := last.1.follows (symbols.truncate_prefix code) last.1.kept straddles
      have whole := List.prefix_iff_eq_take.1 (last.1.kept.trans (List.prefix_append r more))
      rw [List.length_take_of_le last.1.le] at whole
      rw [whole]
      exact .inl closes.kept

omit symbols code cut in
/-- A text that breaks off inside its second block: whatever comes next, the first one is kept. -/
theorem truncate_keeps_broken_off :
    let code : Text := "a \x7b\n b \x7d \n c \x7b"
    IsGreatest {n | braces.ClosesAt code n} 8 ∧ braces.truncate code = "a \x7b\n b \x7d \n".toList ∧
      ∀ more, code.take 8 <+: braces.truncate (braces.truncate code ++ more) := by
  intro code
  have last : IsGreatest {n | braces.ClosesAt code n} 8 := lastClose?_eq_some_iff.1 (by decide +kernel)
  refine ⟨last,by decide +kernel,fun more => ?_⟩
  rcases ((truncate_keeps braces code).2.2.2 8 last).2 more with kept | ⟨_,a,b,filled,same⟩
  · exact kept
  · have size := congrArg List.length same
    have some_ := List.length_pos_iff.2 filled
    simp only [List.length_append,braces,List.length_singleton] at size
    omega

/-- Symbols of which the opening one begins with the closing one. -/
def arrows : Symbols := ⟨"><",">",by decide,by decide⟩

omit symbols code cut in
/-- The closing symbol at the end of what is kept becomes an opening one when the text goes on, and the block
that it closed is cut off. -/
theorem truncate_discards_straddled :
    let code : Text := "><>><>a"
    IsGreatest {n | arrows.ClosesAt code n} 6 ∧ arrows.truncate code = code.take 6 ∧
      ¬ code.take 6 <+: arrows.truncate (arrows.truncate code ++ ['<']) := by
  intro code
  exact ⟨lastClose?_eq_some_iff.1 (by decide +kernel),by decide +kernel,by decide +kernel⟩

end Keeping

end Recast.Symbols
