import Recast.Proofs.Text.Line
import Recast.Proofs.Text.Runs
import Recast.Text.Word

/-! Texts in which words were spelled anew. A change of words, none of which appears or goes away,
leaves the lines of a text and everything else on them in their places. -/
namespace Recast.Text

/-- The code points of white space. -/
def blankCodes : List Nat :=
  [9,10,11,12,13,28,29,30,31,32,133,160,5760,8192,8193,8194,8195,8196,8197,8198,8199,8200,8201,8202,
    8232,8233,8239,8287,12288]

theorem toNat_mem_blankCodes {c : Char} (white : isBlank c = true) : c.toNat ∈ blankCodes := by
  unfold isBlank at white
  simp only [Bool.or_eq_true,Bool.and_eq_true,decide_eq_true_eq] at white
  simp only [blankCodes,List.mem_cons,List.not_mem_nil,or_false]
  omega

/-- White space belongs to no word. -/
theorem isWord_of_isBlank {c : Char} (white : isBlank c = true) : isWord c = false := by
  have all : ∀ n ∈ blankCodes, isWord (Char.ofNat n) = false := by decide +kernel
  have here := all _ (toNat_mem_blankCodes white)
  rwa [Char.ofNat_toNat] at here

theorem isBlank_of_isBreak {c : Char} (breaks : isBreak c = true) : isBlank c = true := by
  unfold isBreak at breaks
  unfold isBlank
  simp only [Bool.or_eq_true,Bool.and_eq_true,decide_eq_true_eq] at breaks ⊢
  omega

/-- Lines as a text falls into them. -/
inductive Lined : List Text → Prop where
  | nil : Lined []
  | last {body : Text} : Unbroken body → body ≠ [] → Lined [body]
  | both {body : Text} {rest : List Text} : Unbroken body → Lined rest →
    Lined ((body ++ ['\r','\n']) :: rest)
  | one {body : Text} {c : Char} {rest : List Text} : Unbroken body → isBreak c = true →
    (c = '\r' → ∀ line ∈ rest.head?, line.head? ≠ some '\n') → Lined rest → Lined ((body ++ [c]) :: rest)

/-- Some words, made of the characters of a class, have become other ones. -/
inductive Respelled (word : Char → Bool) : Text → Text → Prop where
  | nil : Respelled word [] []
  | keep (c : Char) {s t : Text} : Respelled word s t → Respelled word (c :: s) (c :: t)
  | change {u v s t : Text} : u ≠ [] → v ≠ [] → (∀ c ∈ u, word c = true) → (∀ c ∈ v, word c = true) →
    Respelled word s t → Respelled word (u ++ s) (v ++ t)

theorem Lined.cons {c : Char} {line : Text} {rest : List Text} (plain : isBreak c = false)
    (lined : Lined (line :: rest)) : Lined ((c :: line) :: rest) := by
  have longer {body : Text} (unbroken : Unbroken body) : Unbroken (c :: body) := by
    intro d member
    rcases List.mem_cons.1 member with rfl | later
    · exact plain
    · exact unbroken d later
  cases lined with
  | last unbroken _ => exact .last (longer unbroken) (by simp)
  | both unbroken lined => exact .both (longer unbroken) lined
  | one unbroken breaks apart lined => exact .one (longer unbroken) breaks apart lined

theorem Lined.ne_nil {line : Text} {rest : List Text} (lined : Lined (line :: rest)) : line ≠ [] := by
  cases lined with
  | last _ filled => exact filled
  | both _ _ => simp
  | one _ _ _ _ => simp

theorem Lined.tail {line : Text} {rest : List Text} (lined : Lined (line :: rest)) : Lined rest := by
  cases lined with
  | last _ _ => exact .nil
  | both _ lined => exact lined
  | one _ _ _ lined => exact lined

/-- A line that others follow ends with a break. -/
theorem Lined.ends {line : Text} {rest : List Text} (lined : Lined (line :: rest)) (more : rest ≠ []) :
    ∃ body c, line = body ++ [c] ∧ isBreak c = true := by
  cases lined with
  | last _ _ => exact absurd rfl more
  | @both body _ _ _ => exact ⟨body ++ ['\r'],'\n',by simp,rfl⟩
  | @one body c _ _ breaks _ _ => exact ⟨body,c,rfl,breaks⟩

theorem lined_lines (s : Text) : Lined (lines s) := by
  fun_induction lines s with
  | case1 => exact .nil
  | case2 r ih => exact .both (show Unbroken [] by simp [Unbroken]) ih
  | case3 c r other breaks ih =>
    refine .one (show Unbroken [] by simp [Unbroken]) breaks (fun same line member feed => ?_) ih
    have whole := flatten_lines r
    cases held : lines r with
    | nil => simp [held] at member
    | cons first rest =>
      have first_ : first = line := by simpa [held] using member
      obtain ⟨tail,shape⟩ := List.head?_eq_some_iff.1 feed
      refine other (tail ++ rest.flatten) same ?_
      rw [← whole,held,first_,shape]
      rfl
  | case4 c r other plain held ih => exact .last (by simpa [Unbroken] using plain) (by simp)
  | case5 c r other plain l ls held ih =>
    rw [held] at ih
    exact ih.cons (by simpa using plain)

/-- Lines of this kind are the lines of the text that they make up. -/
theorem Lined.lines_flatten {ls : List Text} (lined : Lined ls) : lines ls.flatten = ls := by
  induction lined with
  | nil => rfl
  | @last body unbroken filled =>
    simpa using lines_of_unbroken unbroken filled
  | @both body rest unbroken lined ih =>
    rw [List.flatten_cons,lines_append ⟨body,unbroken,.inr rfl⟩,ih]
  | @one body c rest unbroken breaks apart lined ih =>
    have alone : lines ([c] ++ rest.flatten) = [c] :: lines rest.flatten := by
      rw [List.singleton_append,lines]
      · exact if_pos breaks
      · intro tail same feed
        cases rest with
        | nil => simp at feed
        | cons line rest =>
          refine apart same line (by simp) ?_
          rw [List.flatten_cons] at feed
          cases line with
          | nil => exact absurd rfl lined.ne_nil
          | cons d line => simpa using congrArg List.head? feed
    rw [List.flatten_cons,lines_append_unbroken unbroken alone,ih]

theorem Lined.of_append {front back : List Text} (lined : Lined (front ++ back)) :
    Lined front ∧ Lined back := by
  induction front with
  | nil => exact ⟨.nil,lined⟩
  | cons line front ih =>
    refine ⟨?_,(ih lined.tail).2⟩
    cases held : front ++ back with
    | nil =>
      obtain ⟨rfl,rfl⟩ := List.append_eq_nil_iff.1 held
      exact lined
    | cons next rest =>
      have closed := (ih lined.tail).1
      rw [List.cons_append,held] at lined
      cases lined with
      | both unbroken _ => exact .both unbroken closed
      | one unbroken breaks apart _ =>
        refine .one unbroken breaks (fun same other member => ?_) closed
        cases front with
        | nil => simp at member
        | cons first front => simp_all

/-- Some of the lines of a text, behind each other, fall into the same lines again. -/
theorem lines_flatten_of_within {s : Text} {front ls back : List Text}
    (shape : lines s = front ++ ls ++ back) : lines ls.flatten = ls := by
  have lined := lined_lines s
  rw [shape] at lined
  exact lined.of_append.1.of_append.2.lines_flatten

namespace Respelled
variable {word : Char → Bool}

theorem refl (s : Text) : Respelled word s s := by
  induction s with
  | nil => exact .nil
  | cons c s ih => exact .keep c ih

theorem append {s t u v : Text} (left : Respelled word s t) (right : Respelled word u v) :
    Respelled word (s ++ u) (t ++ v) := by
  induction left with
  | nil => exact right
  | keep c _ ih => exact .keep c ih
  | change old new from_ into _ ih =>
    rw [List.append_assoc,List.append_assoc]
    exact .change old new from_ into ih

theorem nil_iff {s t : Text} (respelled : Respelled word s t) : s = [] ↔ t = [] := by
  cases respelled with
  | nil => simp
  | keep c _ => simp
  | change old new _ _ _ => simp [old,new]

/-- Line breaks keep their places, if no word holds one. -/
theorem before_breaks {s t : Text} (respelled : Respelled word s t)
    (plain : ∀ c, word c = true → isBreak c = false) {body : Text} (brk : Text)
    (unbroken : Unbroken body) (breaks : ∀ c ∈ brk, isBreak c = true) (shape : s = body ++ brk) :
    ∃ new, t = new ++ brk ∧ Unbroken new ∧ Respelled word body new := by
  induction respelled generalizing body brk with
  | nil =>
    obtain ⟨rfl,rfl⟩ := List.append_eq_nil_iff.1 shape.symm
    exact ⟨[],rfl,by simp [Unbroken],.nil⟩
  | @keep c s t rest ih =>
    cases body with
    | nil =>
      cases brk with
      | nil => cases shape
      | cons d brk =>
        obtain ⟨rfl,tail⟩ := List.cons.inj shape
        obtain ⟨new,same,_,begun⟩ := ih brk (show Unbroken [] by simp [Unbroken])
          (fun e member => breaks e (by simp [member])) tail
        refine ⟨[],?_,by simp [Unbroken],.nil⟩
        rw [same,begun.nil_iff.1 rfl]
        rfl
    | cons d body =>
      obtain ⟨rfl,tail⟩ := List.cons.inj shape
      obtain ⟨new,same,free,begun⟩ := ih brk (fun e member => unbroken e (by simp [member])) breaks tail
      refine ⟨c :: new,by rw [same]; rfl,fun e member => ?_,.keep c begun⟩
      rcases List.mem_cons.1 member with rfl | later
      · exact unbroken _ (by simp)
      · exact free e later
  | @change u v s t old new from_ into rest ih =>
    obtain ⟨more,rfl,tail⟩ : ∃ more, body = u ++ more ∧ s = more ++ brk := by
      rcases List.append_eq_append_iff.1 shape with ⟨more,whole,tail⟩ | ⟨past,whole,tail⟩
      · exact ⟨more,whole,tail⟩
      · cases past with
        | nil => exact ⟨[],by simpa using whole.symm,by simpa using tail.symm⟩
        | cons d past =>
          have broken := breaks d (by simp [tail])
          rw [plain d (from_ d (by simp [whole]))] at broken
          cases broken
    obtain ⟨rest_,same,free,begun⟩ := ih brk (fun e member => unbroken e (by simp [member])) breaks tail
    refine ⟨v ++ rest_,by rw [same,List.append_assoc],fun e member => ?_,.change old new from_ into begun⟩
    rcases List.mem_append.1 member with word_ | later
    · exact plain e (into e word_)
    · exact free e later

theorem head_break {s t : Text} {c : Char} (respelled : Respelled word s t)
    (plain : ∀ c, word c = true → isBreak c = false) (breaks : isBreak c = true)
    (begins : t.head? = some c) : s.head? = some c := by
  cases respelled with
  | nil => cases begins
  | keep d _ => exact begins
  | @change u v _ _ _ new _ into _ =>
    cases v with
    | nil => exact absurd rfl new
    | cons d v =>
      obtain rfl : d = c := by simpa using begins
      rw [plain d (into d (by simp))] at breaks
      cases breaks

theorem last_break {s t : Text} {c : Char} (respelled : Respelled word s t)
    (plain : ∀ c, word c = true → isBreak c = false) (breaks : isBreak c = true)
    (ends : t.getLast? = some c) : s.getLast? = some c := by
  induction respelled with
  | nil => cases ends
  | @keep d s t rest ih =>
    cases t with
    | nil =>
      rw [rest.nil_iff.2 rfl]
      exact ends
    | cons e t =>
      have filled : s ≠ [] := fun empty => by cases rest.nil_iff.1 empty
      rw [List.getLast?_cons_cons] at ends
      obtain ⟨f,s,rfl⟩ := List.exists_cons_of_ne_nil filled
      rw [List.getLast?_cons_cons]
      exact ih ends
  | @change u v s t _ new _ into rest ih =>
    cases t with
    | nil =>
      rw [List.append_nil] at ends
      rw [plain c (into c (List.mem_of_getLast? ends))] at breaks
      cases breaks
    | cons e t =>
      rw [List.getLast?_append] at ends ⊢
      rw [ih (by simpa using ends)]
      rfl

/-- Lines with words spelled anew are the lines of the text that they make up. -/
theorem lined {ls : List Text} (plain : ∀ c, word c = true → isBreak c = false) {h : Text → Text}
    (each : ∀ line ∈ ls, Respelled word line (h line)) (lined : Lined ls) : Lined (ls.map h) := by
  induction lined with
  | nil => exact .nil
  | @last body unbroken filled =>
    obtain ⟨new,same,free,begun⟩ := (each body (by simp)).before_breaks plain [] unbroken
      (by simp) (by simp)
    rw [List.append_nil] at same
    rw [List.map_singleton,same]
    exact .last free (mt begun.nil_iff.2 filled)
  | @both body rest unbroken lined ih =>
    obtain ⟨new,same,free,_⟩ := (each _ (by simp)).before_breaks plain ['\r','\n'] unbroken
      (by simp [isBreak]) rfl
    rw [List.map_cons,same]
    exact .both free (ih fun line member => each line (by simp [member]))
  | @one body c rest unbroken breaks apart lined ih =>
    obtain ⟨new,same,free,_⟩ := (each _ (by simp)).before_breaks plain [c] unbroken
      (by simpa using breaks) rfl
    rw [List.map_cons,same]
    refine .one free breaks (fun return_ line member => ?_) (ih fun line member => each line (by simp [member]))
    cases rest with
    | nil => simp at member
    | cons next rest =>
      have next_ : h next = line := by simpa using member
      rw [← next_]
      have before := apart return_ next (by simp)
      exact mt ((each next (by simp)).head_break plain (by decide)) before

theorem all_words {s t : Text} (respelled : Respelled word s t) (all : ∀ c ∈ s, word c = true) :
    ∀ c ∈ t, word c = true := by
  induction respelled with
  | nil => exact all
  | keep c _ ih =>
    intro d member
    rcases List.mem_cons.1 member with rfl | later
    · exact all _ (by simp)
    · exact ih (fun e inside => all e (by simp [inside])) d later
  | change _ _ _ into _ ih =>
    intro d member
    rcases List.mem_append.1 member with here | later
    · exact into d here
    · exact ih (fun e inside => all e (by simp [inside])) d later

/-- What is not spelled anew is read as before. -/
theorem filterMap {α : Type} {s t : Text} (respelled : Respelled word s t) {f : Char → Option α}
    (plain : ∀ c, word c = true → f c = none) : s.filterMap f = t.filterMap f := by
  induction respelled with
  | nil => rfl
  | keep c _ ih => rw [List.filterMap_cons,List.filterMap_cons,ih]
  | @change u v _ _ _ _ from_ into _ ih =>
    have none_ {w : Text} (all : ∀ c ∈ w, word c = true) : w.filterMap f = [] :=
      List.filterMap_eq_nil_iff.2 fun c member => plain c (all c member)
    rw [List.filterMap_append,List.filterMap_append,none_ from_,none_ into,ih]

end Respelled

/-- A change of runs that puts words for words spells a text anew. -/
theorem ChangesRuns.respelled {start more word : Char → Bool} {change f : Text → Text}
    (changes : ChangesRuns start more change f)
    (words : ∀ w, IsRun start more w → change w = w ∨
      (change w ≠ [] ∧ (∀ c ∈ w, word c = true) ∧ ∀ c ∈ change w, word c = true)) (s : Text) :
    Respelled word s (f s) := by
  refine runs_induction (P := fun s => Respelled word s (f s)) changes.within_ ?_ ?_ ?_ s
  · rw [changes.nil]
    exact .nil
  · intro c s plain ih
    rw [changes.other c s plain]
    exact .keep c ih
  · intro w s run stopped ih
    rw [changes.run w s run stopped]
    rcases words w run with same | ⟨filled,from_,into⟩
    · rw [same]
      exact (Respelled.refl w).append ih
    · exact .change run.ne_nil filled from_ into ih

theorem bare_of_unbroken {body : Text} (unbroken : Unbroken body) : bare body = body := by
  unfold bare
  split
  · rename_i r held
    have inside : '\n' ∈ body := List.mem_reverse.1 (by simp [held])
    exact absurd inside (unbroken.notMem rfl)
  · rename_i c r _ held
    have inside : c ∈ body := List.mem_reverse.1 (by simp [held])
    rw [if_neg (by simp [unbroken c inside])]
  · rename_i held
    simpa using held

theorem bare_append {body : Text} {c : Char} (unbroken : Unbroken body) (breaks : isBreak c = true) :
    bare (body ++ [c]) = body := by
  unfold bare
  rw [List.reverse_append,List.reverse_singleton,List.singleton_append]
  split
  · rename_i r held
    have inside : '\r' ∈ body := List.mem_reverse.1 (by simp [(List.cons.inj held).2])
    exact absurd inside (unbroken.notMem rfl)
  · rename_i d r _ held
    obtain ⟨rfl,rfl⟩ := List.cons.inj held
    rw [if_pos breaks,List.reverse_reverse]
  · rename_i held
    cases held

/-- Each line is a body without breaks and one break, which only the last one may lack. -/
theorem Lined.shape {ls : List Text} (lined : Lined ls) {line : Text} (member : line ∈ ls) :
    ∃ body brk, line = body ++ brk ∧ Unbroken body ∧ (∀ c ∈ brk, isBreak c = true) ∧
      ∀ new, Unbroken new → bare (new ++ brk) = new := by
  induction lined with
  | nil => cases member
  | @last body unbroken _ =>
    rw [List.mem_singleton.1 member]
    refine ⟨body,[],(List.append_nil body).symm,unbroken,by simp,fun new free => ?_⟩
    rw [List.append_nil]
    exact bare_of_unbroken free
  | @both body rest unbroken _ ih =>
    rcases List.mem_cons.1 member with rfl | later
    · refine ⟨body,['\r','\n'],rfl,unbroken,by simp [isBreak],fun new free => ?_⟩
      simp [bare]
    · exact ih later
  | @one body c rest unbroken breaks _ _ ih =>
    rcases List.mem_cons.1 member with rfl | later
    · exact ⟨body,[c],rfl,unbroken,by simpa using breaks,fun new free => bare_append free breaks⟩
    · exact ih later

/-- A line is its bare line and a break. -/
theorem exists_bare {s line : Text} (member : line ∈ lines s) :
    ∃ brk, line = bare line ++ brk ∧ Unbroken (bare line) ∧ ∀ c ∈ brk, isBreak c = true := by
  obtain ⟨body,brk,rfl,unbroken,breaks,bare_⟩ := (lined_lines s).shape member
  rw [bare_ body unbroken]
  exact ⟨brk,rfl,unbroken,breaks⟩

section
variable {word : Char → Bool} (plain : ∀ c, word c = true → isBreak c = false) {h : Text → Text}
  (spelled : ∀ line, Respelled word line (h line))
include plain spelled

/-- A text whose lines are spelled anew one by one has the new lines. -/
theorem lines_respelled (s : Text) : lines ((lines s).map h).flatten = (lines s).map h :=
  (Respelled.lined plain (fun line _ => spelled line) (lined_lines s)).lines_flatten

/-- Without their breaks the new lines are the old ones, spelled anew. -/
theorem bareLines_respelled {s line : Text} (member : line ∈ lines s) :
    Respelled word (bare line) (bare (h line)) := by
  obtain ⟨body,brk,rfl,unbroken,breaks,bares⟩ := (lined_lines s).shape member
  obtain ⟨new,same,free,begun⟩ := (spelled (body ++ brk)).before_breaks plain brk unbroken breaks rfl
  rw [same,bares body unbroken,bares new free]
  exact begun

end

end Recast.Text
