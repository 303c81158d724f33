import Mathlib.Data.List.SplitBy
import Recast.Proofs.Text.Search

/-! Runs of characters. A text falls into runs, each as long as it can be, and the characters between
them; a function that changes each run by itself works on the parts of a text one by one. -/
namespace Recast.Text

/-- Characters that belong together, the first of which can begin a run. -/
structure IsRun (start more : Char → Bool) (w : Text) : Prop where
  begins : w.head?.any start = true
  all : ∀ c ∈ w, more c = true

theorem IsRun.ne_nil {start more : Char → Bool} {w : Text} (run : IsRun start more w) : w ≠ [] := by
  intro empty
  have begins := run.begins
  rw [empty] at begins
  cases begins

theorem head_dropWhile (p : Char → Bool) (s : Text) : (s.dropWhile p).head?.any p = false := by
  induction s with
  | nil => rfl
  | cons c r ih =>
    cases held : p c with
    | true => rwa [List.dropWhile_cons_of_pos held]
    | false =>
      rw [List.dropWhile_cons_of_neg (by simp [held])]
      simpa using held

theorem dropWhile_append {p : Char → Bool} {s t : Text} (all : ∀ c ∈ s, p c = true)
    (ended : t.head?.any p = false) : (s ++ t).dropWhile p = t := by
  rw [List.dropWhile_append_of_pos all]
  cases t with
  | nil => rfl
  | cons c r => exact List.dropWhile_cons_of_neg (by simpa using ended)

/-- There is one way to cut a text where its first characters of a kind end. -/
theorem append_inj_of_ended {p : Char → Bool} {u v s t : Text} (same : u ++ s = v ++ t)
    (left : ∀ c ∈ u, p c = true) (right : ∀ c ∈ v, p c = true) (ended : s.head?.any p = false)
    (stopped : t.head?.any p = false) : u = v ∧ s = t := by
  have tails : s = t := by
    rw [← dropWhile_append left ended,same,dropWhile_append right stopped]
  subst tails
  exact ⟨List.append_cancel_right same,rfl⟩

/-- A character that begins a run, and what goes on from there. -/
theorem isRun_takeWhile {start more : Char → Bool} (within_ : ∀ c, start c = true → more c = true)
    {c : Char} (begins : start c = true) (r : Text) : IsRun start more (c :: r.takeWhile more) := by
  refine ⟨by simpa using begins,fun d member => ?_⟩
  rcases List.mem_cons.1 member with rfl | later
  · exact within_ _ begins
  · exact List.all_eq_true.1 List.all_takeWhile d later

/-- A text from its end to its front: a character that begins no run, or a run that goes as far as it
can. -/
theorem runs_induction {start more : Char → Bool} (within_ : ∀ c, start c = true → more c = true)
    {P : Text → Prop} (nil : P []) (other : ∀ c s, start c = false → P s → P (c :: s))
    (run : ∀ w s, IsRun start more w → s.head?.any more = false → P s → P (w ++ s)) (s : Text) :
    P s := by
  match s with
  | [] => exact nil
  | c :: r =>
    cases begins : start c with
    | false => exact other c r begins (runs_induction within_ nil other run r)
    | true =>
      have word := isRun_takeWhile within_ begins r
      have whole : (c :: r.takeWhile more) ++ r.dropWhile more = c :: r := by simp
      rw [← whole]
      exact run _ _ word (head_dropWhile more r) (runs_induction within_ nil other run _)
termination_by s.length
decreasing_by
  · exact Nat.lt_succ_self _
  · exact Nat.lt_succ_of_le (List.dropWhile_sublist _).length_le

/-- The function changes each run of a text by itself and keeps what is between the runs. -/
structure ChangesRuns (start more : Char → Bool) (change f : Text → Text) : Prop where
  within_ : ∀ c, start c = true → more c = true
  nil : f [] = []
  other : ∀ c s, start c = false → f (c :: s) = c :: f s
  run : ∀ w s, IsRun start more w → s.head?.any more = false → f (w ++ s) = change w ++ f s

namespace ChangesRuns
variable {start more : Char → Bool} {change f : Text → Text} (changes : ChangesRuns start more change f)
include changes

theorem not_start {c : Char} (plain : more c = false) : start c = false :=
  Bool.eq_false_iff.2 fun begins => Bool.false_ne_true (plain.symm.trans (changes.within_ c begins))

/-- A character that is no part of a run stays at the front of a text. -/
theorem head {s : Text} (ended : s.head?.any more = false) : (f s).head? = s.head? := by
  cases s with
  | nil => rw [changes.nil]
  | cons c r =>
    rw [changes.other c r (changes.not_start (by simpa using ended))]
    rfl

/-- The function works on two texts one by one where no run goes from one to the other. -/
theorem append {t : Text} (s : Text) (ended : t.head?.any more = false) : f (s ++ t) = f s ++ f t := by
  refine runs_induction (P := fun s => f (s ++ t) = f s ++ f t) changes.within_ ?_ ?_ ?_ s
  · rw [changes.nil]
    rfl
  · intro c s plain ih
    rw [List.cons_append,changes.other c _ plain,changes.other c _ plain,ih]
    rfl
  · intro w s word stopped ih
    have between : (s ++ t).head?.any more = false := by
      cases s with
      | nil => exact ended
      | cons c r => exact stopped
    rw [List.append_assoc,changes.run w _ word between,changes.run w _ word stopped,ih,List.append_assoc]

/-- No run goes beyond a character that is no part of any. -/
theorem append_after {s : Text} {c : Char} (plain : more c = false) (t : Text) :
    f (s ++ c :: t) = f (s ++ [c]) ++ f t := by
  have single : f [c] = [c] := by rw [changes.other c [] (changes.not_start plain),changes.nil]
  rw [changes.append s (by simpa using plain),changes.append s (by simpa using plain),
    changes.other c t (changes.not_start plain),single,List.append_assoc]
  rfl

/-- A run between characters that are no part of any is changed where it stands. -/
theorem between {u w v : Text} (before : u = [] ∨ ∃ t c, u = t ++ [c] ∧ more c = false)
    (run : IsRun start more w) (ended : v.head?.any more = false) :
    f (u ++ (w ++ v)) = f u ++ (change w ++ f v) := by
  have here := changes.run w v run ended
  rcases before with rfl | ⟨t,c,rfl,plain⟩
  · rw [changes.nil,List.nil_append,List.nil_append,here]
  · rw [List.append_assoc,List.singleton_append,changes.append_after plain,here]

theorem eq_self {s : Text} (plain : ∀ c ∈ s, start c = false) : f s = s := by
  induction s with
  | nil => exact changes.nil
  | cons c r ih => rw [changes.other c r (plain c (by simp)),ih fun d member => plain d (by simp [member])]

/-- Characters that begin no run stay where they are. -/
theorem append_plain {s : Text} (plain : ∀ c ∈ s, start c = false) (t : Text) : f (s ++ t) = s ++ f t := by
  induction s with
  | nil => rfl
  | cons c r ih =>
    rw [List.cons_append,changes.other c _ (plain c (by simp)),ih fun d member => plain d (by simp [member])]
    rfl

/-- Functions that change each run alike are the same. -/
theorem congr {other g : Text → Text} (second : ChangesRuns start more other g)
    (same : ∀ w, IsRun start more w → change w = other w) (s : Text) : f s = g s := by
  refine runs_induction (P := fun s => f s = g s) changes.within_ ?_ ?_ ?_ s
  · rw [changes.nil,second.nil]
  · intro c s plain ih
    rw [changes.other c s plain,second.other c s plain,ih]
  · intro w s word stopped ih
    rw [changes.run w s word stopped,second.run w s word stopped,same w word,ih]

/-- Runs that stay runs can be changed again. -/
theorem comp {other g : Text → Text} (second : ChangesRuns start more other g)
    (runs : ∀ w, IsRun start more w → IsRun start more (change w)) :
    ChangesRuns start more (other ∘ change) (g ∘ f) where
  within_ := changes.within_
  nil := by rw [Function.comp_apply,changes.nil,second.nil]
  other := fun c s plain => by
    rw [Function.comp_apply,changes.other c s plain,second.other c _ plain]
    rfl
  run := fun w s word stopped => by
    have still : (f s).head?.any more = false := by rwa [changes.head stopped]
    rw [Function.comp_apply,changes.run w s word stopped,second.run _ _ (runs w word) still]
    rfl

/-- What is changed once is not changed again, if that holds of each run. -/
theorem idem (runs : ∀ w, IsRun start more w → IsRun start more (change w) ∧ change (change w) = change w)
    (s : Text) : f (f s) = f s :=
  (changes.comp changes fun w word => (runs w word).1).congr changes (fun w word => (runs w word).2) s

/-- What is changed twice is what it was, if that holds of each run. -/
theorem cancel (runs : ∀ w, IsRun start more w → IsRun start more (change w) ∧ change (change w) = w)
    (s : Text) : f (f s) = s := by
  have none_ : ChangesRuns start more id id :=
    ⟨changes.within_,rfl,fun _ _ _ => rfl,fun _ _ _ _ => rfl⟩
  exact (changes.comp changes fun w word => (runs w word).1).congr none_ (fun w word => (runs w word).2) s

/-- A text that shows no run once it is changed was not changed. -/
theorem eq_self_of_changed (runs : ∀ w, IsRun start more w → IsRun start more (change w)) {s : Text}
    (plain : ∀ c ∈ f s, start c = false) : f s = s := by
  refine runs_induction (P := fun s => (∀ c ∈ f s, start c = false) → f s = s) changes.within_ ?_ ?_ ?_ s plain
  · exact fun _ => changes.nil
  · intro c s other ih plain
    rw [changes.other c s other] at plain ⊢
    rw [ih fun d member => plain d (by simp [member])]
  · intro w s word stopped _ plain
    rw [changes.run w s word stopped] at plain
    have begins := (runs w word).begins
    cases new : change w with
    | nil => simp [new] at begins
    | cons c rest =>
      rw [new] at begins plain
      exact absurd begins (by simp [plain c (by simp)])

/-- A text begins with a run if it does once it is changed. -/
theorem begins {s : Text} (begun : (f s).head?.any start = true) : s.head?.any start = true := by
  cases s with
  | nil =>
    rw [changes.nil] at begun
    exact begun
  | cons c r =>
    cases held : start c with
    | true => simpa using held
    | false =>
      rw [changes.other c r held] at begun
      simp [held] at begun

section
variable (runs : ∀ w, IsRun start more w → IsRun start more (change w))
include runs

/-- A character that begins no run comes from where it stands. -/
theorem tail {s t : Text} {c : Char} (plain : start c = false) (shape : f s = c :: t) :
    ∃ r, s = c :: r ∧ f r = t := by
  cases s with
  | nil =>
    rw [changes.nil] at shape
    cases shape
  | cons d r =>
    have begun : start d = false := by
      refine Bool.eq_false_iff.2 fun begins => ?_
      have whole : d :: r = (d :: r.takeWhile more) ++ r.dropWhile more := by simp
      have word := isRun_takeWhile changes.within_ begins r
      have new := (runs _ word).begins
      rw [whole,changes.run _ _ word (head_dropWhile more r)] at shape
      cases held : change (d :: r.takeWhile more) with
      | nil => simp [held] at new
      | cons e rest =>
        rw [held] at new shape
        obtain ⟨rfl,_⟩ := List.cons.inj shape
        exact Bool.false_ne_true (plain.symm.trans (by simpa using new))
    rw [changes.other d r begun] at shape
    obtain ⟨rfl,same⟩ := List.cons.inj shape
    exact ⟨r,rfl,same⟩

/-- Characters that begin no run are the same ones in front of a text as before. -/
theorem front {p : Char → Bool} (plain : ∀ c, p c = true → start c = false) (s : Text) :
    (∀ t, f (s.takeWhile p ++ t) = s.takeWhile p ++ f t) ∧ (f (s.dropWhile p)).head?.any p = false := by
  refine ⟨changes.append_plain fun c member => plain c (List.all_eq_true.1 List.all_takeWhile c member),?_⟩
  cases shape : f (s.dropWhile p) with
  | nil => rfl
  | cons c t =>
    refine Bool.eq_false_iff.2 fun held => ?_
    have inside : p c = true := by simpa using held
    obtain ⟨r,same,_⟩ := changes.tail runs (plain c inside) shape
    have stopped := head_dropWhile p s
    rw [same,List.head?_cons,Option.any_some,inside] at stopped
    cases stopped

end

end ChangesRuns

/-- The runs of a text, each as long as it can be, and every other character by itself. -/
def runs (p : Char → Bool) (s : Text) : List Text := s.splitBy fun c d => p c && p d

/-- Changes the runs of a text and its other characters one by one. -/
def mapRuns (p : Char → Bool) (change : Text → Text) (s : Text) : Text := ((runs p s).map change).flatten

section
variable {p : Char → Bool}

theorem runs_other {c : Char} (plain : p c = false) (s : Text) : runs p (c :: s) = [c] :: runs p s :=
  List.splitBy_append (l := [c]) (m := s) fun d last e _ => by
    have same : c = d := by simpa using last
    rw [← same,plain,Bool.false_and]

theorem runs_run {w s : Text} (run : IsRun p p w) (ended : s.head?.any p = false) :
    runs p (w ++ s) = w :: runs p s := by
  have whole : runs p w = [w] := by
    refine List.splitBy_of_isChain run.ne_nil (List.Pairwise.isChain ?_)
    refine List.pairwise_of_forall_mem_list fun c left d right => ?_
    rw [run.all c left,run.all d right]
    rfl
  have apart : runs p (w ++ s) = runs p w ++ runs p s := List.splitBy_append fun c _ d first => by
    have plain : p d = false := by
      rw [Option.mem_def] at first
      simpa [first] using ended
    rw [plain,Bool.and_false]
  rw [apart,whole]
  rfl

theorem changesRuns_mapRuns {change : Text → Text} (kept : ∀ c, p c = false → change [c] = [c]) :
    ChangesRuns p p change (mapRuns p change) where
  within_ := fun _ h => h
  nil := rfl
  other := fun c s plain => by
    rw [mapRuns,runs_other plain,List.map_cons,List.flatten_cons,kept c plain]
    rfl
  run := fun w s run ended => by
    rw [mapRuns,runs_run run ended,List.map_cons,List.flatten_cons]
    rfl

end

end Recast.Text
