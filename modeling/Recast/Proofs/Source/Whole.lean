import Recast.Proofs.Source.Traced

/-! Whether a body stays in one piece when an outline is filled. A body is torn where the marker of a
later one takes a character of it along, and where something is put between two of its characters. -/
namespace Recast.Outline
open Text

section
variable {α : Type} {holds : α → Prop}

/-- Two lists do not end alike if the last stretch of the one can have no element of the other's. -/
theorem append_ne_append {p r q m : List α} (inside : ∀ e ∈ r, holds e) (outside : ∀ e ∈ m, ¬ holds e)
    (first : r ≠ []) (second : m ≠ []) : p ++ r ≠ q ++ m := by
  intro same
  have last := congrArg List.getLast? same
  rw [List.getLast?_append,List.getLast?_append,List.getLast?_eq_some_getLast first,
    List.getLast?_eq_some_getLast second] at last
  have there := outside _ (List.getLast_mem second)
  rw [← Option.some.inj last] at there
  exact there (inside _ (List.getLast_mem first))

/-- One of two stretches of a list comes before the other if no element can be in both of them. -/
theorem apart_of_append {u r v a m b : List α} (same : u ++ r ++ v = a ++ m ++ b)
    (inside : ∀ e ∈ r, holds e) (outside : ∀ e ∈ m, ¬ holds e) (first : r ≠ []) (second : m ≠ []) :
    (∃ w, a = u ++ r ++ w ∧ v = w ++ m ++ b) ∨ ∃ w, b = w ++ r ++ v ∧ u = a ++ m ++ w := by
  rcases List.append_eq_append_iff.1 same with ⟨w,left,rfl⟩ | ⟨w,left,rfl⟩
  · rcases List.append_eq_append_iff.1 left with ⟨t,start,rfl⟩ | ⟨t,start,rfl⟩
    · cases t with
      | nil => exact .inl ⟨[],by simpa using start.symm,by simp⟩
      | cons e t =>
        exact absurd start (append_ne_append inside (fun f member => outside f (List.mem_append_left _ member)) first
          (List.cons_ne_nil e t))
    · exact .inl ⟨t,start,rfl⟩
  · rcases List.append_eq_append_iff.1 left with ⟨t,start,rfl⟩ | ⟨t,start,rfl⟩
    · cases t with
      | nil => exact .inr ⟨[],by simp,by simpa using start.symm⟩
      | cons e t =>
        exact absurd start.symm (append_ne_append (fun f member => inside f (List.mem_append_left _ member)) outside
          (List.cons_ne_nil e t) second)
    · exact .inr ⟨t,rfl,start⟩

end

namespace Traced

/-- The characters of a body stand together. -/
def Whole (x : Traced) (i : Nat) (body : Text) : Prop :=
  ∃ u v, x = u ++ of (.body i) body ++ v ∧ ∀ e ∈ u ++ v, e.2 ≠ .body i

/-- The characters on the two sides of a place belong to the same body. -/
def Parted (x : Traced) (place : Nat) : Prop :=
  ∃ u a b v i, x = u ++ (a,.body i) :: (b,.body i) :: v ∧ place = u.length + 1

/-- Every marker that is found on the way meets a condition. -/
def Along (holds : Text → Site → Prop) (index : Nat) (x : Traced) : List Text → Prop
  | [] => True
  | body :: rest =>
    match x.site? index with
    | some s => holds body s ∧ Along holds (index + 1) (put s index body) rest
    | none => Along holds (index + 1) x rest

/-- Bodies with numbers below a bound are all that is in a text. -/
def Below (bound : Nat) (x : Traced) : Prop := ∀ e ∈ x, ∀ i, e.2 = .body i → i < bound

/-- How many characters of a body are in a text. -/
def size (i : Nat) (x : Traced) : Nat := x.countP fun e => e.2 = .body i

end Traced

/-- No character of a body is taken for a part of the marker. -/
def Site.Spares (_ : Text) (s : Site) : Prop := ∀ e ∈ s.found, ∀ i, e.2 ≠ .body i

/-- The body ends with a line feed, or nothing more stands on the line of its marker. -/
def Site.Alone (body : Text) (s : Site) : Prop :=
  body = [] ∨ endsWith "\n" body = true ∨ s.ending ≠ [] ∨ s.behind = []

namespace Traced
variable {x : Traced} {s : Site} {k i : Nat} {body : Text} {rest : List Text}

theorem place_of_site (here : x.site? k = some s) :
    x.place k (body :: rest) = (put s k body).place (k + 1) rest := by
  rw [place,here]

theorem place_of_none (here : x.site? k = none) : x.place k (body :: rest) =
    ((x.place (k + 1) rest).1,(body,k) :: (x.place (k + 1) rest).2) := by
  rw [place,here]

theorem ne_of_added {added : Text} {e : Char × Origin} (member : e ∈ of .added added) : e.2 ≠ .body i := by
  rw [mem_of member]
  exact Origin.noConfusion

theorem mem_put {e : Char × Origin} (member : e ∈ put s k body) :
    e ∈ s.before ∨ e ∈ s.behind ∨ e.2 = .body k ∨ e.2 = .added := by
  unfold put filled at member
  simp only [List.mem_append] at member
  rcases member with (before | filled_ | filled_) | behind
  · exact .inl before
  · exact .inr (.inr (.inl (mem_of filled_)))
  · exact .inr (.inr (.inr (mem_of filled_)))
  · exact .inr (.inl behind)

theorem Found.of_put (found : x.Found k s) {e : Char × Origin} (member : e ∈ put s k body)
    (label : e.2 = .body i) : e ∈ x ∨ i = k := by
  rcases mem_put member with before | behind | own | own
  · exact .inl (by rw [found.parts]; simp [before])
  · exact .inl (by rw [found.parts]; simp [behind])
  · rw [own] at label
    exact .inr (Origin.body.inj label).symm
  · rw [own] at label
    cases label

theorem Below.after (below : x.Below k) (found : x.Found k s) : (put s k body).Below (k + 1) := by
  intro e member i label
  rcases found.of_put member label with old | rfl
  · exact Nat.lt_succ_of_lt (below e old i label)
  · exact Nat.lt_succ_self i

theorem Below.succ (below : x.Below k) : x.Below (k + 1) := fun e member i label =>
  Nat.lt_succ_of_lt (below e member i label)

theorem missing_sublist (k : Nat) (x : Traced) (rest : List Text) :
    ((x.place k rest).2).Sublist (rest.zipIdx k) := by
  induction rest generalizing k x with
  | nil => exact List.Sublist.slnil
  | cons body rest ih =>
    rw [List.zipIdx_cons]
    cases here : x.site? k with
    | some s =>
      rw [place_of_site here]
      exact (ih (k + 1) _).cons _
    | none =>
      rw [place_of_none here]
      exact (ih (k + 1) _).cons_cons _

theorem le_of_missing {m : Text × Nat} (member : m ∈ (x.place k rest).2) : k ≤ m.2 :=
  (List.mem_zipIdx ((missing_sublist k x rest).subset member)).1

/-- The bodies whose characters are there at the end were there before, or were put in place. -/
theorem of_place {e : Char × Origin} (member : e ∈ (x.place k rest).1) (label : e.2 = .body i) :
    (∃ f ∈ x, f.2 = .body i) ∨ k ≤ i ∧ ∀ m ∈ (x.place k rest).2, m.2 ≠ i := by
  induction rest generalizing k x with
  | nil => exact .inl ⟨e,member,label⟩
  | cons body rest ih =>
    cases here : x.site? k with
    | some s =>
      rw [place_of_site here] at member ⊢
      rcases ih member with ⟨f,inside,same⟩ | ⟨later,others⟩
      · rcases (found_of_site? here).of_put inside same with old | rfl
        · exact .inl ⟨f,old,same⟩
        · exact .inr ⟨Nat.le_refl i,fun m inside => Nat.ne_of_gt (le_of_missing inside)⟩
      · exact .inr ⟨Nat.le_of_succ_le later,others⟩
    | none =>
      rw [place_of_none here] at member ⊢
      rcases ih member with old | ⟨later,others⟩
      · exact .inl old
      · refine .inr ⟨Nat.le_of_succ_le later,fun m inside => ?_⟩
        rcases List.mem_cons.1 inside with rfl | inside
        · exact Nat.ne_of_lt later
        · exact others m inside

/-- No character of a missing body is in the text. -/
theorem Below.missing (below : x.Below k) {m : Text × Nat} (missing : m ∈ (x.place k rest).2) :
    ∀ e ∈ (x.place k rest).1, e.2 ≠ .body m.2 := by
  intro e member label
  rcases of_place member label with ⟨f,old,same⟩ | ⟨_,others⟩
  · exact Nat.not_lt.2 (le_of_missing missing) (below f old m.2 same)
  · exact others m missing rfl

theorem Below.place (below : x.Below k) (rest : List Text) : (x.place k rest).1.Below (k + rest.length) := by
  induction rest generalizing k x with
  | nil => exact below
  | cons body rest ih =>
    rw [List.length_cons,Nat.add_comm rest.length 1,← Nat.add_assoc]
    cases here : x.site? k with
    | some s =>
      rw [place_of_site here]
      exact ih (below.after (found_of_site? here))
    | none =>
      rw [place_of_none here]
      exact ih below.succ

/-! ### Bodies that stay whole -/

theorem filled_ne (other : i ≠ k) {ending : Text} {e : Char × Origin} (member : e ∈ filled k body ending) :
    e.2 ≠ .body i := by
  intro label
  rcases List.mem_append.1 member with own | own
  · rw [mem_of own] at label
    exact other (Origin.body.inj label).symm
  · exact ne_of_added own label

/-- What is put between the characters around a body leaves it whole. -/
theorem Whole.exchange {before found_ behind new : Traced} (whole : x.Whole i body)
    (parts : x = before ++ found_ ++ behind) (spares : ∀ e ∈ found_, e.2 ≠ .body i) (some_ : found_ ≠ [])
    (fresh : ∀ e ∈ new, e.2 ≠ .body i) : Whole (before ++ new ++ behind) i body := by
  obtain ⟨u,v,same,others⟩ := whole
  by_cases empty : body = []
  · subst empty
    have old : ∀ e ∈ x, e.2 ≠ .body i := by
      rw [same]
      simpa [of] using others
    rw [parts] at old
    refine ⟨before ++ new,behind,by simp [of],?_⟩
    simp only [List.forall_mem_append] at old ⊢
    exact ⟨⟨old.1.1,fresh⟩,old.2⟩
  · have filled_ : of (.body i) body ≠ [] := by simpa [of] using empty
    rcases apart_of_append (same.symm.trans parts) (fun e member => mem_of member) spares filled_ some_ with
      ⟨w,rfl,rfl⟩ | ⟨w,rfl,rfl⟩
    · refine ⟨u,w ++ new ++ behind,by simp,?_⟩
      simp only [List.forall_mem_append] at others ⊢
      exact ⟨others.1,⟨others.2.1.1,fresh⟩,others.2.2⟩
    · refine ⟨before ++ new ++ w,v,by simp,?_⟩
      simp only [List.forall_mem_append] at others ⊢
      exact ⟨⟨⟨others.1.1.1,fresh⟩,others.1.2⟩,others.2⟩

theorem Whole.within (whole : x.Whole i body) {a b : Traced} (front : ∀ e ∈ a, e.2 ≠ .body i)
    (back : ∀ e ∈ b, e.2 ≠ .body i) : Whole (a ++ x ++ b) i body := by
  obtain ⟨u,v,rfl,others⟩ := whole
  refine ⟨a ++ u,v ++ b,by simp,?_⟩
  simp only [List.forall_mem_append] at others ⊢
  exact ⟨⟨front,others.1⟩,others.2,back⟩

theorem Found.ne_nil (found : x.Found k s) : s.found ≠ [] := by
  obtain ⟨gap,wide,same,_⟩ := found.shape
  obtain ⟨r,marker_⟩ := marker_cons k
  intro empty
  rw [empty,marker_] at same
  simp at same

theorem Whole.after (whole : x.Whole i body) (found : x.Found k s) (other : i ≠ k) {new : Text}
    (spares : s.Spares new) : (put s k new).Whole i body :=
  whole.exchange found.parts (fun e member => spares e member i) found.ne_nil fun _ member =>
    filled_ne other member

theorem Below.whole_put (below : x.Below k) (found : x.Found k s) : (put s k body).Whole k body := by
  have old : ∀ e ∈ x, e.2 ≠ .body k := fun e member label => Nat.lt_irrefl k (below e member k label)
  rw [found.parts] at old
  refine ⟨s.before,of .added ((withEnding body s.ending).drop body.length) ++ s.behind,
    by simp [Traced.put,filled],?_⟩
  simp only [List.forall_mem_append] at old ⊢
  exact ⟨old.1.1,fun _ => ne_of_added,old.2⟩

/-- A body that stands in one piece stays so while later ones are put in place. -/
theorem Whole.place (spared : x.Along Site.Spares k rest) (before : i < k) (whole : x.Whole i body) :
    (x.place k rest).1.Whole i body := by
  induction rest generalizing k x with
  | nil => exact whole
  | cons other rest ih =>
    unfold Along at spared
    cases here : x.site? k with
    | some s =>
      rw [here] at spared
      rw [place_of_site here]
      exact ih spared.2 (Nat.lt_succ_of_lt before)
        (whole.after (found_of_site? here) (Nat.ne_of_lt before) spared.1)
    | none =>
      rw [here] at spared
      rw [place_of_none here]
      exact ih spared (Nat.lt_succ_of_lt before) whole

/-- A body that is put in place stands there in one piece, and the others are missing. -/
theorem Below.whole_place (below : x.Below k) (spared : x.Along Site.Spares k rest) {j : Nat}
    (here : rest[j]? = some body) :
    (body,k + j) ∈ (x.place k rest).2 ∨ (x.place k rest).1.Whole (k + j) body := by
  induction rest generalizing k x j with
  | nil => cases here
  | cons other rest ih =>
    unfold Along at spared
    cases site : x.site? k with
    | some s =>
      have found := found_of_site? site
      rw [site] at spared
      rw [place_of_site site]
      cases j with
      | zero =>
        cases here
        exact .inr (below.whole_put found |>.place spared.2 (Nat.lt_succ_self k))
      | succ j =>
        have later := ih (below.after found) spared.2 here
        rwa [Nat.add_assoc,Nat.add_comm 1] at later
    | none =>
      rw [site] at spared
      rw [place_of_none site]
      cases j with
      | zero =>
        cases here
        exact .inl List.mem_cons_self
      | succ j =>
        have later := ih below.succ spared here
        rw [Nat.add_assoc,Nat.add_comm 1] at later
        exact later.imp (List.mem_cons_of_mem _) id

/-! ### Bodies that are torn -/

theorem size_append (x y : Traced) : size i (x ++ y) = size i x + size i y := List.countP_append ..

theorem size_eq_zero (others : ∀ e ∈ x, e.2 ≠ .body i) : size i x = 0 := by
  unfold size
  simpa using others

theorem size_of (i : Nat) (body : Text) : size i (of (.body i) body) = body.length := by
  unfold size of
  rw [List.countP_map]
  simp

theorem Whole.size (whole : x.Whole i body) : Traced.size i x = body.length := by
  obtain ⟨u,v,rfl,others⟩ := whole
  have rest := size_eq_zero others
  rw [size_append] at rest
  rw [size_append,size_append,size_of]
  omega

theorem Found.size_put (found : x.Found k s) (other : i ≠ k) :
    Traced.size i (Traced.put s k body) + Traced.size i s.found = Traced.size i x := by
  have none_ : Traced.size i (filled k body s.ending) = 0 := size_eq_zero fun _ => filled_ne other
  unfold Traced.put
  rw [found.parts]
  simp only [size_append,none_]
  omega

/-- A body that lost a character does not get it back. -/
theorem size_place_le (before : i < k) (x : Traced) (rest : List Text) :
    size i (x.place k rest).1 ≤ size i x := by
  induction rest generalizing k x with
  | nil => exact Nat.le_refl _
  | cons body rest ih =>
    cases here : x.site? k with
    | some s =>
      rw [place_of_site here]
      have less : size i (put s k body) + size i s.found = size i x :=
        (found_of_site? here).size_put (Nat.ne_of_lt before)
      exact Nat.le_trans (ih (Nat.lt_succ_of_lt before) _) (by omega)
    | none =>
      rw [place_of_none here]
      exact ih (Nat.lt_succ_of_lt before) x

/-- Where a marker takes a character of a body with it, that body is short of it in the end. -/
theorem Below.short (below : x.Below k) (found : x.Found k s) (torn : ¬ s.Spares body)
    (rest : List Text) : ∃ i < k, (∃ e ∈ x, e.2 = .body i) ∧
      Traced.size i ((put s k body).place (k + 1) rest).1 < Traced.size i x := by
  obtain ⟨e,member,i,label⟩ : ∃ e ∈ s.found, ∃ i, e.2 = .body i := by
    simpa [Site.Spares] using torn
  have old : e ∈ x := by
    rw [found.parts]
    simp [member]
  have before := below e old i label
  have lost : 0 < Traced.size i s.found := List.countP_pos_iff.2 ⟨e,member,by simpa using label⟩
  have less : Traced.size i (put s k body) + Traced.size i s.found = Traced.size i x :=
    found.size_put (Nat.ne_of_lt before)
  have last : Traced.size i ((put s k body).place (k + 1) rest).1 ≤ Traced.size i (put s k body) :=
    size_place_le (Nat.lt_succ_of_lt before) _ rest
  exact ⟨i,before,⟨e,old,label⟩,by omega⟩

/-- Where some marker takes characters of bodies along, one of those is not there as a whole. -/
theorem Below.torn {all : List Text} (below : x.Below k) (rest_ : all.drop k = rest)
    (sizes : ∀ i body, all[i]? = some body → size i x ≤ body.length)
    (torn : ¬ x.Along Site.Spares k rest) :
    ∃ i body, all[i]? = some body ∧ size i (x.place k rest).1 < body.length ∧
      ((∃ e ∈ x, e.2 = .body i) ∨ k ≤ i) ∧ ∀ m ∈ (x.place k rest).2, m.2 ≠ i := by
  induction rest generalizing k x with
  | nil => exact absurd trivial torn
  | cons body rest ih =>
    obtain ⟨here,behind⟩ := getElem?_of_drop rest_
    unfold Along at torn
    cases site : x.site? k with
    | some s =>
      have found := found_of_site? site
      rw [site] at torn
      rw [place_of_site site]
      by_cases spares : s.Spares body
      · have sizes_ : ∀ i other, all[i]? = some other → size i (put s k body) ≤ other.length := by
          intro i other there
          by_cases same : i = k
          · subst same
            rw [here] at there
            cases there
            exact Nat.le_of_eq (below.whole_put found).size
          · exact Nat.le_trans (Nat.le.intro (found.size_put same)) (sizes i other there)
        obtain ⟨i,other,there,short,origin,others⟩ := ih (below.after found) behind sizes_
          fun later => torn ⟨spares,later⟩
        refine ⟨i,other,there,short,?_,others⟩
        rcases origin with ⟨e,member,label⟩ | later
        · rcases found.of_put member label with old | rfl
          · exact .inl ⟨e,old,label⟩
          · exact .inr (Nat.le_refl i)
        · exact .inr (Nat.le_of_succ_le later)
      · obtain ⟨i,before,old,short⟩ := below.short found spares rest
        have within : k < all.length := (List.getElem?_eq_some_iff.1 here).1
        have there := List.getElem?_eq_getElem (Nat.lt_trans before within)
        refine ⟨i,_,there,Nat.lt_of_lt_of_le short (sizes i _ there),.inl old,fun m missing => ?_⟩
        exact Nat.ne_of_gt (Nat.lt_of_lt_of_le (Nat.lt_succ_of_lt before) (le_of_missing missing))
    | none =>
      rw [site] at torn
      rw [place_of_none site]
      obtain ⟨i,other,there,short,origin,others⟩ := ih below.succ behind sizes torn
      have apart : k ≠ i := by
        rcases origin with ⟨e,member,label⟩ | later
        · exact (Nat.ne_of_lt (below e member i label)).symm
        · exact Nat.ne_of_lt later
      refine ⟨i,other,there,short,origin.imp id Nat.le_of_succ_le,fun m missing => ?_⟩
      rcases List.mem_cons.1 missing with rfl | missing
      · exact apart
      · exact others m missing

/-! ### The cut -/

/-- Two characters of a body with a cut between them. -/
theorem parted_of_of {u v t w : Traced} {n : Nat} (same : x = u ++ of (.body i) body ++ v)
    (parts : of (.body i) body = t ++ w) (left : t ≠ []) (right : w ≠ []) (cut : x.take n = u ++ t) :
    x.Parted n := by
  obtain ⟨front,p,rfl⟩ := List.eq_nil_or_concat t |>.resolve_left left
  obtain ⟨q,back,rfl⟩ := List.exists_cons_of_ne_nil right
  have first : p.2 = .body i := mem_of (s := body) (by rw [parts]; simp)
  have second : q.2 = .body i := mem_of (s := body) (by rw [parts]; simp)
  obtain ⟨a,_⟩ := p
  obtain ⟨b,_⟩ := q
  cases first
  cases second
  refine ⟨u ++ front,a,b,back ++ v,i,by rw [same,parts]; simp,?_⟩
  have taken := congrArg List.length cut
  have whole := congrArg List.length (same.trans (by rw [parts]))
  simp only [List.length_take,List.length_append,List.length_cons,List.length_concat] at taken whole ⊢
  omega

/-- What is put at a place that does not part a body leaves every body whole. -/
theorem Whole.splice (whole : x.Whole i body) {n : Nat} (kept : ¬ x.Parted n) {new : Traced}
    (fresh : ∀ e ∈ new, e.2 ≠ .body i) : Whole (x.take n ++ new ++ x.drop n) i body := by
  obtain ⟨u,v,same,others⟩ := whole
  have cut : u ++ of (.body i) body ++ v = x.take n ++ x.drop n := by
    rw [List.take_append_drop,← same]
  have before {w : Traced} (front : u = x.take n ++ w) (back : x.drop n = w ++ of (.body i) body ++ v) :
      Whole (x.take n ++ new ++ x.drop n) i body := by
    refine ⟨x.take n ++ new ++ w,v,by rw [back]; simp,?_⟩
    rw [front] at others
    simp only [List.forall_mem_append] at others ⊢
    exact ⟨⟨⟨others.1.1,fresh⟩,others.1.2⟩,others.2⟩
  have behind {w : Traced} (front : x.take n = u ++ of (.body i) body ++ w) (back : v = w ++ x.drop n) :
      Whole (x.take n ++ new ++ x.drop n) i body := by
    refine ⟨u,w ++ new ++ x.drop n,by rw [front]; simp,?_⟩
    rw [back] at others
    simp only [List.forall_mem_append] at others ⊢
    exact ⟨others.1,⟨others.2.1,fresh⟩,others.2.2⟩
  rcases List.append_eq_append_iff.1 cut with ⟨w,left,right⟩ | ⟨w,left,right⟩
  · exact behind left right
  · rcases List.append_eq_append_iff.1 left with ⟨t,start,rest⟩ | ⟨t,start,rest⟩
    · by_cases none_ : t = []
      · subst none_
        exact before (w := []) (by simpa using start.symm) (by rw [right,rest]; simp)
      · by_cases last : w = []
        · subst last
          exact behind (w := []) (by rw [start,rest]; simp) (by simpa using right.symm)
        · exact absurd (parted_of_of same rest none_ last start) kept
    · exact before start (by rw [right,rest])

/-- What is put between two characters of a body tears it. -/
theorem Parted.not_whole {n : Nat} (parted : x.Parted n) {new : Traced} (some_ : new ≠ [])
    (fresh : ∀ e ∈ new, ∀ i, (∃ f ∈ x, f.2 = .body i) → e.2 ≠ .body i) :
    ∃ i, (∃ e ∈ x, e.2 = .body i) ∧ ∀ body, ¬ Whole (x.take n ++ new ++ x.drop n) i body := by
  obtain ⟨u,a,b,v,i,same,rfl⟩ := parted
  have inside : (a,.body i) ∈ x := by
    rw [same]
    simp
  have front : x.take (u.length + 1) = u ++ [(a,.body i)] := by
    rw [same,List.append_cons]
    exact List.take_left' (by simp)
  have back : x.drop (u.length + 1) = (b,.body i) :: v := by
    rw [same,List.append_cons]
    exact List.drop_left' (by simp)
  refine ⟨i,⟨_,inside,rfl⟩,?_⟩
  rintro body ⟨u',v',whole,others⟩
  rw [front,back] at whole
  simp only [List.mem_append] at others
  have filled_ : of (.body i) body ≠ [] := by
    intro empty
    have member : (a,.body i) ∈ u' ++ of (.body i) body ++ v' := by
      rw [← whole]
      simp
    rw [empty] at member
    simp only [List.append_nil,List.mem_append] at member
    exact others _ member rfl
  rcases apart_of_append whole.symm (fun e member => mem_of member)
      (fun e member => fresh e member i ⟨_,inside,rfl⟩) filled_ some_ with ⟨w,_,right⟩ | ⟨w,_,left⟩
  · exact others (b,.body i) (.inr (by rw [right]; simp)) rfl
  · exact others (a,.body i) (.inl (by rw [left]; simp)) rfl

theorem mem_block {missing : List (Text × Nat)} {e : Char × Origin} (member : e ∈ block missing)
    (label : e.2 = .body i) : ∃ m ∈ missing, m.2 = i := by
  obtain ⟨m,inside,own⟩ := List.mem_flatMap.1 member
  rcases List.mem_append.1 own with own | own
  · rw [mem_of own] at label
    exact ⟨m,inside,Origin.body.inj label⟩
  · rw [mem_of own] at label
    cases label

theorem block_ne_nil {missing : List (Text × Nat)} (some_ : missing ≠ []) : block missing ≠ [] := by
  obtain ⟨m,rest,rfl⟩ := List.exists_cons_of_ne_nil some_
  intro empty
  have same := congrArg text empty
  rw [text_block] at same
  have closed : feedClosed m.1 = [] := by
    simp only [List.map_cons,List.flatten_cons,text_nil,List.append_eq_nil_iff] at same
    exact same.1
  unfold feedClosed at closed
  split at closed
  · rename_i ends
    rw [closed] at ends
    exact absurd ends (by decide)
  · simp at closed

/-- Each of the missing bodies stands in one piece. -/
theorem whole_block {missing : List (Text × Nat)} (distinct : (missing.map Prod.snd).Nodup)
    (member : (body,i) ∈ missing) : (block missing).Whole i body := by
  obtain ⟨front,back,rfl⟩ := List.append_of_mem member
  rw [List.map_append,List.map_cons] at distinct
  obtain ⟨_,later,earlier⟩ := List.nodup_append.1 distinct
  have apart : ∀ m ∈ front ++ back, m.2 ≠ i := by
    intro m inside same
    rcases List.mem_append.1 inside with inside | inside
    · exact earlier _ (List.mem_map_of_mem inside) i List.mem_cons_self same
    · exact (List.nodup_cons.1 later).1 (List.mem_map.2 ⟨m,inside,same⟩)
  refine ⟨block front,of .added ((feedClosed body).drop body.length) ++ block back,
    by simp [block,List.flatMap_append],fun e inside label => ?_⟩
  rcases List.mem_append.1 inside with inside | inside
  · obtain ⟨m,there,same⟩ := mem_block inside label
    exact apart m (List.mem_append_left _ there) same
  · rcases List.mem_append.1 inside with inside | inside
    · exact ne_of_added inside label
    · obtain ⟨m,there,same⟩ := mem_block inside label
      exact apart m (List.mem_append_right _ there) same

end Traced

end Recast.Outline
