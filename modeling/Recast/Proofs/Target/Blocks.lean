import Recast.Proofs.Number.Numeral
import Recast.Target.Blocks

/-! Issues of block symbols stand on lines that hold a symbol. -/
namespace Recast

namespace Symbols

/-- The lines that a scan reports are open ones or come from its input. -/
private theorem mem_scan {held : List Nat} {found : List (Token × Nat)} {n : Nat}
    (member : n ∈ (scan held found).1 ∨ n ∈ (scan held found).2) :
    n ∈ held ∨ ∃ t, (t,n) ∈ found := by
  induction found generalizing held with
  | nil => simpa [scan] using member
  | cons entry rest ih =>
    obtain ⟨t,number⟩ := entry
    cases t with
    | opening =>
      rcases (ih member : n ∈ number :: held ∨ _) with open_ | ⟨t,later⟩
      · rcases List.mem_cons.1 open_ with rfl | before
        · exact .inr ⟨.opening,by simp⟩
        · exact .inl before
      · exact .inr ⟨t,by simp [later]⟩
    | closing =>
      cases held with
      | nil =>
        have split : n = number ∨ n ∈ (scan [] rest).1 ∨ n ∈ (scan [] rest).2 := by
          simpa [scan,or_assoc] using member
        rcases split with rfl | later
        · exact .inr ⟨.closing,by simp⟩
        · rcases ih later with none_ | ⟨t,later⟩
          · simp at none_
          · exact .inr ⟨t,by simp [later]⟩
      | cons first outer =>
        rcases (ih member : n ∈ outer ∨ _) with before | ⟨t,later⟩
        · exact .inl (by simp [before])
        · exact .inr ⟨t,by simp [later]⟩

theorem mem_issues {symbols : Symbols} {code : Text} {issue : Issue}
    (member : issue ∈ symbols.issues code) :
    ∃ t n, (t,n) ∈ symbols.locate code ∧
      (issue = symbols.unmatched n ∨ issue = symbols.unclosed n) := by
  unfold issues at member
  rw [(Ordered.sort_perm _ _).mem_iff,List.mem_append,List.mem_map,List.mem_map] at member
  rcases member with ⟨n,inside,rfl⟩ | ⟨n,inside,rfl⟩
  · rcases mem_scan (.inl inside) with none_ | ⟨t,found⟩
    · simp at none_
    · exact ⟨t,n,found,.inl rfl⟩
  · rcases mem_scan (.inr inside) with none_ | ⟨t,found⟩
    · simp at none_
    · exact ⟨t,n,found,.inr rfl⟩

private theorem mem_locateFrom {symbols : Symbols} {number : Nat} {ls : List Text} {t : Token} {n : Nat}
    (member : (t,n) ∈ symbols.locateFrom number ls) :
    ∃ i line, n = number + i ∧ ls[i]? = some line ∧ t ∈ symbols.tokens line := by
  induction ls generalizing number with
  | nil => simp [locateFrom] at member
  | cons line rest ih =>
    rcases List.mem_append.1 member with here | later
    · obtain ⟨s,inside,same⟩ := List.mem_map.1 here
      cases same
      exact ⟨0,line,rfl,rfl,inside⟩
    · obtain ⟨i,found,same,at_,inside⟩ := ih later
      exact ⟨i + 1,found,by omega,by simpa using at_,inside⟩

theorem mem_locate {symbols : Symbols} {code : Text} {t : Token} {n : Nat}
    (member : (t,n) ∈ symbols.locate code) :
    ∃ i line, n = i + 1 ∧ (Text.lines code)[i]? = some line ∧ t ∈ symbols.tokens (Text.bare line) := by
  obtain ⟨i,found,same,at_,inside⟩ := mem_locateFrom member
  rw [Text.bareLines,List.getElem?_map] at at_
  obtain ⟨line,whole,rfl⟩ := Option.map_eq_some_iff.1 at_
  exact ⟨i,line,by omega,whole,inside⟩

theorem token?_singleton {c d e : Char} {symbols : Symbols} (opening : symbols.opening = [d])
    (closing : symbols.closing = [e]) (s : Text) :
    symbols.token? (c :: s) = if d = c then some .opening else if e = c then some .closing else none := by
  simp [token?,Text.startsWith,opening,closing]

/-- Where the symbols are single characters, those of a text are those of its characters. -/
theorem tokens_singleton {d e : Char} {symbols : Symbols} (opening : symbols.opening = [d])
    (closing : symbols.closing = [e]) (s : Text) :
    symbols.tokens s = s.filterMap fun c => symbols.token? [c] := by
  unfold tokens
  induction s with
  | nil => rfl
  | cons c r ih =>
    have alone : symbols.token? (c :: r) = symbols.token? [c] := by
      rw [token?_singleton opening closing,token?_singleton opening closing]
    rw [tokensFrom,List.filterMap_cons,alone]
    cases found : symbols.token? [c] with
    | none => exact ih
    | some t =>
      have size : symbols.size t - 1 = 0 := by
        cases t
        · simp [Symbols.size,opening]
        · simp [Symbols.size,closing]
      dsimp only
      rw [size,ih]

theorem token?_braces (c : Char) (r : Text) :
    braces.token? (c :: r) = if c = '\x7b' then some .opening
      else if c = '\x7d' then some .closing else none := by
  have starts (d : Char) : Text.startsWith [d] (c :: r) = decide (c = d) := by
    by_cases same : d = c
    · simp [Text.startsWith,same]
    · simp [Text.startsWith,List.isPrefixOf,same,Ne.symm same]
  unfold token? braces
  simp only [starts,decide_eq_true_eq]

private theorem blank_of_tokensFrom {skip : Nat} {line : Text} {t : Token}
    (member : t ∈ braces.tokensFrom skip line) : Text.blank line = false := by
  induction line generalizing skip with
  | nil => cases skip <;> simp [tokensFrom] at member
  | cons c r ih =>
    have later {n : Nat} (member : t ∈ braces.tokensFrom n r) : Text.blank (c :: r) = false := by
      have inside := ih member
      unfold Text.blank at inside ⊢
      rw [List.all_cons,inside,Bool.and_false]
    cases skip with
    | succ skip => exact later member
    | zero =>
      rw [tokensFrom,token?_braces] at member
      by_cases opens : c = '\x7b'
      · subst opens
        rfl
      · by_cases closes : c = '\x7d'
        · subst closes
          rfl
        · simp only [if_neg opens,if_neg closes] at member
          exact later member

theorem mem_of_mem_bare {line : Text} {c : Char} (member : c ∈ Text.bare line) : c ∈ line := by
  rw [← List.mem_reverse]
  unfold Text.bare at member
  split at member
  · rename_i held
    simp [held,List.mem_reverse.1 member]
  · rename_i held
    split at member
    · simp [held,List.mem_reverse.1 member]
    · exact List.mem_reverse.2 member
  · simp at member

/-- The line that an issue is about is there and is not blank. -/
theorem line_of_issue {code : Text} {issue : Issue} (member : issue ∈ braces.issues code) :
    ∃ (i : Nat) (line : Text), issue.line = i + 1 ∧ (Text.lines code)[i]? = some line ∧
      Text.blank line = false := by
  obtain ⟨t,n,found,shape⟩ := mem_issues member
  obtain ⟨i,line,rfl,at_,inside⟩ := mem_locate found
  refine ⟨i,line,?_,at_,?_⟩
  · rcases shape with rfl | rfl
    · exact Int.natCast_succ i
    · exact Int.natCast_succ i
  · have filled := blank_of_tokensFrom inside
    obtain ⟨c,held,dark⟩ := List.all_eq_false.1 filled
    exact List.all_eq_false.2 ⟨c,mem_of_mem_bare held,dark⟩

/-- An issue is told without a capital C. -/
theorem notMem_shown {code : Text} {issue : Issue} (member : issue ∈ braces.issues code) :
    'C' ∉ issue.shown := by
  obtain ⟨t,n,_,shape⟩ := mem_issues member
  have message : 'C' ∉ issue.message := by
    rcases shape with rfl | rfl
    · exact (by decide : 'C' ∉ ("Unmatched '" ++ ['\x7d'] ++ "'" : Text))
    · exact (by decide : 'C' ∉ ("Unclosed '" ++ ['\x7b'] ++ "'" : Text))
  have number : 'C' ∉ Numeral.ofInt issue.line := Numeral.notMem_ofInt (by decide) (by decide) _
  have word : 'C' ∉ ("Line " : Text) := by decide
  have colon : 'C' ∉ (": " : Text) := by decide
  unfold Issue.shown
  split
  · simp only [List.mem_append,word,number,colon,message,or_self,not_false_eq_true]
  · exact message

end Symbols

end Recast
