import Recast.Proofs.Target.Blocks
import Recast.Proofs.Text.Respelling
import Recast.Source.Chunk

/-! Block symbols without a partner. How many of them a code has depends only on the word of its
symbols, and where both symbols are characters the word of a text is put together from the words of
its parts. -/
namespace Recast

theorem Text.occurrences_singleton (c : Char) (s : Text) : Text.occurrences [c] s = s.count c := by
  unfold Text.occurrences
  induction s with
  | nil => rfl
  | cons d r ih =>
    by_cases same : c = d
    · subst same
      simp [Text.occurrencesFrom,ih,Nat.add_comm]
    · simp [Text.occurrencesFrom,ih,same,Ne.symm same]

namespace Symbols

/-- What a word leaves without a partner where `held` blocks are open before it: closing symbols that
close nothing, and blocks that are open behind it. -/
def surplus (held : Nat) : List Token → Nat × Nat
  | [] => (0, held)
  | .opening :: rest => surplus (held + 1) rest
  | .closing :: rest =>
    match held with
    | 0 => ((surplus 0 rest).1 + 1, (surplus 0 rest).2)
    | outer + 1 => surplus outer rest

/-- How many blocks more a word opens than it closes. -/
def net (w : List Token) : Int := w.count .opening - w.count .closing

@[simp] theorem net_nil : net [] = 0 := rfl

@[simp] theorem net_append (v w : List Token) : net (v ++ w) = net v + net w := by
  simp only [net,List.count_append]
  omega

@[simp] theorem net_opening (w : List Token) : net (.opening :: w) = net w + 1 := by
  simp only [net,List.count_cons_self,List.count_cons_of_ne (by simp : Token.opening ≠ .closing)]
  omega

@[simp] theorem net_closing (w : List Token) : net (.closing :: w) = net w - 1 := by
  simp only [net,List.count_cons_self,List.count_cons_of_ne (by simp : Token.closing ≠ .opening)]
  omega

theorem net_flatten {words : List (List Token)} (level : ∀ w ∈ words, net w = 0) :
    net words.flatten = 0 := by
  induction words with
  | nil => rfl
  | cons w words ih =>
    rw [List.flatten_cons,net_append,level w (by simp),ih fun v member => level v (by simp [member])]
    rfl

theorem surplus_append (held : Nat) (v w : List Token) : surplus held (v ++ w) =
    ((surplus held v).1 + (surplus (surplus held v).2 w).1,(surplus (surplus held v).2 w).2) := by
  induction v generalizing held with
  | nil => simp [surplus]
  | cons t v ih =>
    cases t with
    | opening => exact ih (held + 1)
    | closing =>
      cases held with
      | zero =>
        simp only [List.cons_append,surplus,ih 0]
        rw [Nat.add_right_comm]
      | succ outer => exact ih outer

/-- What is open behind a word is what was open before it, and what the word adds; closing symbols
without a partner take nothing away. -/
theorem surplus_net (held : Nat) (w : List Token) :
    ((surplus held w).2 : Int) = held + net w + (surplus held w).1 := by
  induction w generalizing held with
  | nil => simp [surplus]
  | cons t w ih =>
    cases t with
    | opening =>
      have later := ih (held + 1)
      rw [surplus,net_opening]
      omega
    | closing =>
      cases held with
      | zero =>
        have later := ih 0
        simp only [surplus,net_closing]
        omega
      | succ outer =>
        have later := ih outer
        rw [surplus,net_closing]
        omega

/-- Where a word adds nothing, as many blocks are open behind it as closing symbols found none. -/
theorem surplus_level {w : List Token} (level : net w = 0) : (surplus 0 w).2 = (surplus 0 w).1 := by
  have whole := surplus_net 0 w
  rw [level] at whole
  omega

/-- Words that add nothing, but for the last one, are without fault together exactly if each of them
is. -/
theorem surplus_flatten_iff {words : List (List Token)} (level : ∀ w ∈ words.dropLast, net w = 0) :
    surplus 0 words.flatten = (0,0) ↔ ∀ w ∈ words, surplus 0 w = (0,0) := by
  induction words with
  | nil => simp [surplus]
  | cons w words ih =>
    cases words with
    | nil => simp
    | cons next words =>
      have closed := surplus_level (level w (by simp))
      have later := ih fun v member => level v (by simp [member])
      rw [List.flatten_cons,surplus_append,closed,List.forall_mem_cons,← later]
      constructor
      · intro none_
        obtain ⟨left,right⟩ := Prod.mk.inj none_
        have first : (surplus 0 w).1 = 0 := by omega
        rw [first] at left right
        exact ⟨Prod.ext first (closed.trans first),Prod.ext (by simpa using left) right⟩
      · rintro ⟨first,rest⟩
        rw [first,rest]
        rfl

/-- Only numbers matter for how much a scan reports. -/
theorem length_scan (held : List Nat) (found : List (Token × Nat)) :
    (scan held found).1.length = (surplus held.length (found.map Prod.fst)).1 ∧
      (scan held found).2.length = (surplus held.length (found.map Prod.fst)).2 := by
  induction found generalizing held with
  | nil => simp [scan,surplus]
  | cons entry rest ih =>
    obtain ⟨t,n⟩ := entry
    cases t with
    | opening => exact ih (n :: held)
    | closing =>
      cases held with
      | nil => exact ⟨congrArg (· + 1) (ih []).1,(ih []).2⟩
      | cons first outer => exact ih outer

variable {symbols : Symbols}

/-- The symbols of a code from left to right. -/
def word (symbols : Symbols) (code : Text) : List Token := (symbols.locate code).map Prod.fst

theorem unmatched_ne_unclosed (n m : Nat) : symbols.unmatched n ≠ symbols.unclosed m := by
  have left : ("Unmatched '" : Text) = 'U' :: 'n' :: 'm' :: "atched '".toList := by decide +kernel
  have right : ("Unclosed '" : Text) = 'U' :: 'n' :: 'c' :: "losed '".toList := by decide +kernel
  intro same
  have messages := (Issue.mk.inj same).1
  rw [left,right] at messages
  simp at messages

theorem mem_issues_iff {code : Text} {issue : Issue} : issue ∈ symbols.issues code ↔
    (∃ n ∈ (scan [] (symbols.locate code)).1, symbols.unmatched n = issue) ∨
      ∃ n ∈ (scan [] (symbols.locate code)).2, symbols.unclosed n = issue := by
  unfold issues
  rw [(Ordered.sort_perm _ _).mem_iff,List.mem_append,List.mem_map,List.mem_map]

/-- A closing symbol is reported exactly if the word has one that closes nothing. -/
theorem exists_unmatched_iff {code : Text} : (∃ n, symbols.unmatched n ∈ symbols.issues code) ↔
    (surplus 0 (symbols.word code)).1 ≠ 0 := by
  have length := (length_scan [] (symbols.locate code)).1
  simp only [mem_issues_iff]
  constructor
  · rintro ⟨n,⟨m,member,_⟩ | ⟨m,_,same⟩⟩
    · have filled := List.length_pos_of_mem member
      exact Nat.ne_of_gt (length ▸ filled)
    · exact absurd same.symm (unmatched_ne_unclosed n m)
  · intro some_
    obtain ⟨m,member⟩ := List.exists_mem_of_length_pos (length ▸ Nat.pos_of_ne_zero some_)
    exact ⟨m,.inl ⟨m,member,rfl⟩⟩

/-- An opening symbol is reported exactly if the word leaves a block open. -/
theorem exists_unclosed_iff {code : Text} : (∃ n, symbols.unclosed n ∈ symbols.issues code) ↔
    (surplus 0 (symbols.word code)).2 ≠ 0 := by
  have length := (length_scan [] (symbols.locate code)).2
  simp only [mem_issues_iff]
  constructor
  · rintro ⟨n,⟨m,_,same⟩ | ⟨m,member,_⟩⟩
    · exact absurd same (unmatched_ne_unclosed m n)
    · have filled := List.length_pos_of_mem member
      exact Nat.ne_of_gt (length ▸ filled)
  · intro some_
    obtain ⟨m,member⟩ := List.exists_mem_of_length_pos (length ▸ Nat.pos_of_ne_zero some_)
    exact ⟨m,.inr ⟨m,member,rfl⟩⟩

theorem issues_eq_nil_iff {code : Text} :
    symbols.issues code = [] ↔ surplus 0 (symbols.word code) = (0,0) := by
  rw [List.eq_nil_iff_forall_not_mem,Prod.ext_iff]
  constructor
  · intro none_
    constructor
    · refine Decidable.byContradiction fun some_ => ?_
      obtain ⟨n,member⟩ := exists_unmatched_iff.2 some_
      exact none_ _ member
    · refine Decidable.byContradiction fun some_ => ?_
      obtain ⟨n,member⟩ := exists_unclosed_iff.2 some_
      exact none_ _ member
  · rintro ⟨closings,openings⟩ issue member
    rcases mem_issues_iff.1 member with ⟨n,_,rfl⟩ | ⟨n,_,rfl⟩
    · exact exists_unmatched_iff.1 ⟨n,member⟩ closings
    · exact exists_unclosed_iff.1 ⟨n,member⟩ openings

/-- The symbols are two characters, neither of which ends a line. -/
structure Single (symbols : Symbols) : Prop where
  opening : ∃ c, symbols.opening = [c] ∧ Text.isBreak c = false
  closing : ∃ c, symbols.closing = [c] ∧ Text.isBreak c = false
  different : symbols.opening ≠ symbols.closing

theorem single_braces : braces.Single where
  opening := ⟨_,rfl,rfl⟩
  closing := ⟨_,rfl,rfl⟩
  different := by decide

variable (single : symbols.Single)
include single

theorem Single.tokens_eq (s : Text) : symbols.tokens s = s.filterMap fun c => symbols.token? [c] := by
  obtain ⟨c,opening,_⟩ := single.opening
  obtain ⟨d,closing,_⟩ := single.closing
  exact tokens_singleton opening closing s

theorem Single.tokens_flatten (texts : List Text) :
    symbols.tokens texts.flatten = (texts.map symbols.tokens).flatten := by
  rw [single.tokens_eq,List.filterMap_flatten]
  exact congrArg List.flatten (List.map_congr_left fun t _ => (single.tokens_eq t).symm)

theorem Single.token?_break {c : Char} (breaks : Text.isBreak c = true) : symbols.token? [c] = none := by
  obtain ⟨d,opening,left⟩ := single.opening
  obtain ⟨e,closing,right⟩ := single.closing
  rw [token?_singleton opening closing,if_neg (by rintro rfl; simp_all),if_neg (by rintro rfl; simp_all)]

omit single in
theorem word_eq_flatMap (code : Text) :
    symbols.word code = (Text.bareLines code).flatMap symbols.tokens := by
  have numbered (number : Nat) (ls : List Text) :
      (symbols.locateFrom number ls).map Prod.fst = ls.flatMap symbols.tokens := by
    induction ls generalizing number with
    | nil => rfl
    | cons line rest ih => simp [locateFrom,ih,Function.comp_def]
  exact numbered 1 (Text.bareLines code)

/-- Lines and their breaks make no difference to the word of a code. -/
theorem Single.word_eq (code : Text) : symbols.word code = symbols.tokens code := by
  have bared : ∀ line ∈ Text.lines code, symbols.tokens (Text.bare line) = symbols.tokens line := by
    intro line member
    obtain ⟨brk,shape,_,breaks⟩ := Text.exists_bare member
    have silent : (brk.filterMap fun c => symbols.token? [c]) = [] :=
      List.filterMap_eq_nil_iff.2 fun c inside => single.token?_break (breaks c inside)
    calc
      symbols.tokens (Text.bare line)
        = (Text.bare line ++ brk).filterMap fun c => symbols.token? [c] := by
          rw [List.filterMap_append,silent,List.append_nil,single.tokens_eq]
      _ = symbols.tokens line := by rw [← shape,single.tokens_eq]
  rw [word_eq_flatMap,Text.bareLines,List.flatMap_map,List.flatMap_def,List.map_congr_left bared,
    ← single.tokens_flatten,Text.flatten_lines]

/-- What the word of a text adds is what its characters add. -/
theorem Single.net_tokens (s : Text) : net (symbols.tokens s) = Chunk.delta symbols s := by
  obtain ⟨c,opening,_⟩ := single.opening
  obtain ⟨d,closing,_⟩ := single.closing
  have other : c ≠ d := fun same => single.different (by rw [opening,closing,same])
  unfold Chunk.delta
  rw [single.tokens_eq,opening,closing,Text.occurrences_singleton,Text.occurrences_singleton]
  induction s with
  | nil => rfl
  | cons e s ih =>
    rw [List.filterMap_cons,token?_singleton opening closing]
    by_cases opens : c = e
    · subst opens
      rw [List.count_cons_self,List.count_cons_of_ne other]
      simp only [if_true,net_opening,ih]
      omega
    · rw [List.count_cons_of_ne (Ne.symm opens),if_neg opens]
      by_cases closes : d = e
      · subst closes
        rw [List.count_cons_self]
        simp only [if_true,net_closing,ih]
        omega
      · rw [List.count_cons_of_ne (Ne.symm closes),if_neg closes]
        exact ih

end Symbols

end Recast
