import Mathlib.Data.List.Perm.Basic
import Mathlib.Data.List.Perm.Subperm
import Mathlib.Order.Bounds.Defs
import Recast.Proofs.Source.Reading
import Recast.Proofs.Target.Pairing

/-! The grammar of block symbols. A code is well formed exactly if the word of its symbols is balanced;
otherwise there is an issue for each symbol without a partner, and these are as few symbols as can be left
out to make the word balanced. -/
namespace Recast.Symbols

/-- Words made of blocks, one behind the other and one within the other. -/
inductive Balanced : List Token → Prop where
  | nil : Balanced []
  | block {inner rest : List Token} : Balanced inner → Balanced rest →
    Balanced (.opening :: (inner ++ .closing :: rest))

section Words

/-- What is open before a word makes up for as many of its closing symbols, and the rest stays open. -/
theorem surplus_eq (held : Nat) (w : List Token) :
    surplus held w = ((surplus 0 w).1 - held,(surplus 0 w).2 + (held - (surplus 0 w).1)) := by
  induction w generalizing held with
  | nil => simp [surplus]
  | cons t w ih =>
    cases t with
    | opening =>
      rw [surplus,surplus,ih (held + 1),ih 1]
      exact Prod.ext (by dsimp only; omega) (by dsimp only; omega)
    | closing =>
      cases held with
      | zero => simp [surplus]
      | succ outer =>
        rw [surplus,surplus,ih outer]
        exact Prod.ext (by dsimp only; omega) (by dsimp only; omega)

theorem surplus_opening (w : List Token) : surplus 0 (.opening :: w) =
    ((surplus 0 w).1 - 1,(surplus 0 w).2 + (1 - (surplus 0 w).1)) := surplus_eq 1 w

theorem surplus_closing (w : List Token) :
    surplus 0 (.closing :: w) = ((surplus 0 w).1 + 1,(surplus 0 w).2) := rfl

/-- A balanced word leaves open what was open before it. -/
theorem Balanced.surplus {w : List Token} (balanced : Balanced w) (held : Nat) :
    surplus held w = (0,held) := by
  induction balanced generalizing held with
  | nil => rfl
  | @block inner rest _ _ within_ behind =>
    rw [Symbols.surplus,surplus_append,within_,Symbols.surplus,behind,Nat.add_zero]

theorem Balanced.surplus_stray {inner : List Token} (balanced : Balanced inner) (rest : List Token) :
    Symbols.surplus 0 (inner ++ .closing :: rest) =
      ((Symbols.surplus 0 rest).1 + 1,(Symbols.surplus 0 rest).2) := by
  rw [surplus_append,balanced.surplus,surplus_closing]
  simp

theorem Balanced.surplus_unclosed {inner : List Token} (balanced : Balanced inner) (front : List Token) :
    Symbols.surplus 0 (front ++ .opening :: inner) =
      ((Symbols.surplus 0 front).1,(Symbols.surplus 0 front).2 + 1) := by
  rw [surplus_append,Symbols.surplus,balanced.surplus]
  rfl

/-- Before the first closing symbol that closes nothing the word is balanced. -/
theorem exists_stray {w : List Token} (stray : (surplus 0 w).1 ≠ 0) :
    ∃ inner rest, w = inner ++ .closing :: rest ∧ Balanced inner := by
  induction size : w.length using Nat.strongRecOn generalizing w with
  | ind n ih =>
    match w with
    | [] => exact absurd rfl stray
    | .closing :: w => exact ⟨[],w,rfl,.nil⟩
    | .opening :: w =>
      rw [List.length_cons] at size
      -- The opening symbol takes the first one of two that are left over, and then comes the second.
      rw [surplus_opening] at stray
      obtain ⟨inner,rest,rfl,first⟩ := ih w.length (by omega) (w := w) (by dsimp only at stray; omega) rfl
      rw [first.surplus_stray] at stray
      rw [List.length_append,List.length_cons] at size
      obtain ⟨next,later,rfl,second⟩ :=
        ih rest.length (by omega) (w := rest) (by dsimp only at stray; omega) rfl
      exact ⟨.opening :: (inner ++ .closing :: next),later,by simp,.block first second⟩

theorem balanced_iff {w : List Token} : Balanced w ↔ surplus 0 w = (0,0) := by
  refine ⟨fun balanced => balanced.surplus 0,fun level => ?_⟩
  induction size : w.length using Nat.strongRecOn generalizing w with
  | ind n ih =>
    match w with
    | [] => exact .nil
    | .closing :: w => cases level
    | .opening :: w =>
      rw [surplus_opening,Prod.mk.injEq] at level
      obtain ⟨inner,rest,rfl,balanced⟩ := exists_stray (w := w) (by omega)
      rw [balanced.surplus_stray] at level
      rw [List.length_cons,List.length_append,List.length_cons] at size
      refine .block balanced (ih rest.length (by omega) (w := rest) (Prod.ext ?_ ?_) rfl)
      · dsimp only at level ⊢
        omega
      · dsimp only at level ⊢
        omega

/-- Behind the last opening symbol that stays open the word is balanced. -/
theorem exists_unclosed {w : List Token} (open_ : (surplus 0 w).2 ≠ 0) :
    ∃ front inner, w = front ++ .opening :: inner ∧ Balanced inner := by
  induction w with
  | nil => exact absurd rfl open_
  | cons t w ih =>
    by_cases later : (surplus 0 w).2 = 0
    · cases t with
      | closing => exact absurd later open_
      | opening =>
        rw [surplus_opening] at open_
        refine ⟨[],w,rfl,balanced_iff.2 (Prod.ext ?_ later)⟩
        dsimp only at open_ ⊢
        omega
    · obtain ⟨front,inner,rfl,balanced⟩ := ih later
      exact ⟨t :: front,inner,rfl,balanced⟩

end Words

section Deletions

/-- How many symbols of a word have no partner, where `held` blocks are open before it. -/
def lonely (held : Nat) (w : List Token) : Nat := (surplus held w).1 + (surplus held w).2

theorem lonely_cons_le (held : Nat) (t : Token) (w : List Token) : lonely held (t :: w) ≤ lonely held w + 1 := by
  unfold lonely
  rw [surplus_eq held w]
  cases t with
  | opening =>
    rw [surplus,surplus_eq (held + 1) w]
    dsimp only
    omega
  | closing =>
    cases held with
    | zero =>
      rw [surplus_closing]
      dsimp only
      omega
    | succ outer =>
      rw [surplus,surplus_eq outer w]
      dsimp only
      omega

theorem lonely_le_of_sublist {kept w : List Token} (sublist : kept.Sublist w) (held : Nat) :
    lonely held w + kept.length ≤ lonely held kept + w.length := by
  induction sublist generalizing held with
  | slnil => exact Nat.le_refl _
  | @cons kept w t _ ih =>
    have less := lonely_cons_le held t w
    have later := ih held
    rw [List.length_cons]
    omega
  | @cons_cons kept w t _ ih =>
    rw [List.length_cons,List.length_cons]
    cases t with
    | opening =>
      have later := ih (held + 1)
      unfold lonely at later ⊢
      rw [surplus,surplus]
      omega
    | closing =>
      cases held with
      | zero =>
        have later := ih 0
        unfold lonely at later ⊢
        rw [surplus_closing,surplus_closing]
        dsimp only
        omega
      | succ outer =>
        have later := ih outer
        unfold lonely at later ⊢
        rw [surplus,surplus]
        omega

theorem exists_balanced_sublist (w : List Token) :
    ∃ kept, kept.Sublist w ∧ Balanced kept ∧ w.length = kept.length + lonely 0 w := by
  induction size : w.length using Nat.strongRecOn generalizing w with
  | ind n ih =>
    -- A symbol that is left out here has no partner, so one less is left over.
    by_cases stray : (surplus 0 w).1 = 0
    · by_cases open_ : (surplus 0 w).2 = 0
      · exact ⟨w,.refl w,balanced_iff.2 (Prod.ext stray open_),by simp [lonely,stray,open_,size]⟩
      · obtain ⟨front,inner,rfl,balanced⟩ := exists_unclosed open_
        rw [List.length_append,List.length_cons] at size
        obtain ⟨kept,sublist,level,count⟩ :=
          ih (front ++ inner).length (by rw [List.length_append]; omega) (front ++ inner) rfl
        refine ⟨kept,sublist.trans ((List.Sublist.refl front).append (List.sublist_cons_self _ _)),level,?_⟩
        unfold lonely at count ⊢
        rw [surplus_append,balanced.surplus,List.length_append] at count
        rw [balanced.surplus_unclosed]
        dsimp only at count ⊢
        omega
    · obtain ⟨inner,rest,rfl,balanced⟩ := exists_stray stray
      rw [List.length_append,List.length_cons] at size
      obtain ⟨kept,sublist,level,count⟩ :=
        ih (inner ++ rest).length (by rw [List.length_append]; omega) (inner ++ rest) rfl
      refine ⟨kept,sublist.trans ((List.Sublist.refl inner).append (List.sublist_cons_self _ _)),level,?_⟩
      unfold lonely at count ⊢
      rw [surplus_append,balanced.surplus,List.length_append] at count
      rw [balanced.surplus_stray]
      dsimp only at count ⊢
      omega

/-- The symbols without a partner are as few as can be left out to make a word balanced. -/
theorem isLeast_lonely (w : List Token) :
    IsLeast {k | ∃ kept, kept.Sublist w ∧ Balanced kept ∧ w.length = kept.length + k} (lonely 0 w) := by
  refine ⟨exists_balanced_sublist w,?_⟩
  rintro k ⟨kept,sublist,balanced,count⟩
  have bound := lonely_le_of_sublist sublist 0
  have none_ : lonely 0 kept = 0 := by rw [lonely,balanced.surplus,Nat.add_zero]
  omega

end Deletions

section Partners

/-- The symbols at these places of a word open and close a block. -/
def Partners (w : List Token) (i j : Nat) : Prop :=
  ∃ front inner rest, w = front ++ .opening :: (inner ++ .closing :: rest) ∧ Balanced inner ∧
    i = front.length ∧ j = front.length + 1 + inner.length

/-- The symbol at this place opens and closes no block. -/
def Alone (w : List Token) (i : Nat) : Prop := ∀ j, ¬ Partners w i j ∧ ¬ Partners w j i

theorem alone_closing_iff (front rest : List Token) :
    Alone (front ++ .closing :: rest) front.length ↔ (surplus 0 front).2 = 0 := by
  constructor
  · intro alone
    refine Decidable.byContradiction fun open_ => ?_
    obtain ⟨outer,inner,rfl,balanced⟩ := exists_unclosed open_
    exact (alone outer.length).2 ⟨outer,inner,rest,by simp,balanced,rfl,by simp; omega⟩
  · intro closed j
    constructor
    · rintro ⟨outer,inner,later,same,_,place,_⟩
      cases (List.cons.inj (List.append_inj same place).2).1
    · rintro ⟨outer,inner,later,same,balanced,_,place⟩
      have split : front ++ .closing :: rest = (outer ++ .opening :: inner) ++ .closing :: later := by
        rw [same,List.append_assoc,List.cons_append]
      have before := (List.append_inj split (by simp [place]; omega)).1
      rw [before,balanced.surplus_unclosed] at closed
      cases closed

theorem alone_opening_iff (front rest : List Token) :
    Alone (front ++ .opening :: rest) front.length ↔ (surplus 0 rest).1 = 0 := by
  constructor
  · intro alone
    refine Decidable.byContradiction fun stray => ?_
    obtain ⟨inner,later,rfl,balanced⟩ := exists_stray stray
    exact (alone _).1 ⟨front,inner,later,rfl,balanced,rfl,rfl⟩
  · intro level j
    constructor
    · rintro ⟨outer,inner,later,same,balanced,place,_⟩
      have behind := (List.cons.inj (List.append_inj same place).2).2
      rw [behind,balanced.surplus_stray] at level
      cases level
    · rintro ⟨outer,inner,later,same,_,_,place⟩
      have split : front ++ .opening :: rest = (outer ++ .opening :: inner) ++ .closing :: later := by
        rw [same,List.append_assoc,List.cons_append]
      cases (List.cons.inj (List.append_inj split (by simp [place]; omega)).2).1

end Partners

section Scanning

theorem exists_place_cons {α : Type} {a e : α} {l : List α} {P : List α → List α → Prop} :
    (∃ front rest, a :: l = front ++ e :: rest ∧ P front rest) ↔
      (a = e ∧ P [] l) ∨ ∃ front rest, l = front ++ e :: rest ∧ P (a :: front) rest := by
  constructor
  · rintro ⟨front,rest,same,held⟩
    cases front with
    | nil =>
      obtain ⟨rfl,rfl⟩ := List.cons.inj same
      exact .inl ⟨rfl,held⟩
    | cons b front =>
      obtain ⟨rfl,rfl⟩ := List.cons.inj same
      exact .inr ⟨front,rest,rfl,held⟩
  · rintro (⟨rfl,held⟩ | ⟨front,rest,rfl,held⟩)
    · exact ⟨[],l,rfl,held⟩
    · exact ⟨a :: front,rest,rfl,held⟩

/-- Closing symbols are reported where nothing is open before them. -/
theorem mem_scan_closings {held : List Nat} {found : List (Token × Nat)} {n : Nat} :
    n ∈ (scan held found).1 ↔ ∃ front rest, found = front ++ (.closing,n) :: rest ∧
      (surplus held.length (front.map Prod.fst)).2 = 0 := by
  induction found generalizing held with
  | nil => simp [scan]
  | cons entry found ih =>
    obtain ⟨t,m⟩ := entry
    rw [exists_place_cons]
    cases t with
    | opening =>
      rw [scan,ih]
      simp [surplus]
    | closing =>
      cases held with
      | nil =>
        rw [scan,List.mem_cons,ih]
        simp [surplus,eq_comm]
      | cons first outer =>
        rw [scan,ih]
        simp [surplus]

theorem exists_from_cons {a e least : Nat} {l : List Nat} :
    (∃ k, (a :: l)[k]? = some e ∧ least ≤ k) ↔ (a = e ∧ least = 0) ∨ ∃ k, l[k]? = some e ∧ least - 1 ≤ k := by
  constructor
  · rintro ⟨k,found,above⟩
    cases k with
    | zero => exact .inl ⟨Option.some.inj found,Nat.le_zero.1 above⟩
    | succ k => exact .inr ⟨k,found,by omega⟩
  · rintro (⟨rfl,rfl⟩ | ⟨k,found,above⟩)
    · exact ⟨0,rfl,Nat.le_refl 0⟩
    · exact ⟨k + 1,found,by omega⟩

/-- Opening symbols are reported where nothing is left over behind them that would close them; and of
those that were open before, the outermost ones stay. -/
theorem mem_scan_openings {held : List Nat} {found : List (Token × Nat)} {n : Nat} :
    n ∈ (scan held found).2 ↔ (∃ front rest, found = front ++ (.opening,n) :: rest ∧
      (surplus 0 (rest.map Prod.fst)).1 = 0) ∨
      ∃ k, held[k]? = some n ∧ (surplus 0 (found.map Prod.fst)).1 ≤ k := by
  induction found generalizing held with
  | nil =>
    rw [scan,List.mem_reverse,List.mem_iff_getElem?]
    simp [surplus]
  | cons entry found ih =>
    obtain ⟨t,m⟩ := entry
    rw [exists_place_cons]
    cases t with
    | opening =>
      rw [scan,ih,exists_from_cons,List.map_cons,surplus_opening]
      simp only [Prod.mk.injEq,true_and]
      rw [or_left_comm,or_assoc]
    | closing =>
      cases held with
      | nil =>
        rw [scan,ih]
        simp
      | cons first outer =>
        rw [scan,ih,exists_from_cons,List.map_cons,surplus_closing]
        simp

theorem scan_subperm (held : List Nat) (found : List (Token × Nat)) :
    ((scan held found).1 ++ (scan held found).2).Subperm (held ++ found.map Prod.snd) := by
  induction found generalizing held with
  | nil => simpa [scan] using (List.reverse_perm held).subperm
  | cons entry found ih =>
    obtain ⟨t,n⟩ := entry
    cases t with
    | opening =>
      rw [List.map_cons]
      exact (ih (n :: held)).trans List.perm_middle.symm.subperm
    | closing =>
      cases held with
      | nil => exact (List.subperm_cons n).2 (ih [])
      | cons first outer =>
        refine (ih outer).trans (List.Sublist.subperm ?_)
        exact (List.sublist_cons_self _ _).append (List.sublist_cons_self _ _)

/-- A scan does not look at what it is given as the lines. -/
theorem scan_map (f : Nat → Nat) (held : List Nat) (found : List (Token × Nat)) :
    scan (held.map f) (found.map (Prod.map id f)) =
      ((scan held found).1.map f,(scan held found).2.map f) := by
  induction found generalizing held with
  | nil => simp [scan]
  | cons entry found ih =>
    obtain ⟨t,n⟩ := entry
    cases t with
    | opening => exact ih (n :: held)
    | closing =>
      cases held with
      | nil =>
        have later := ih []
        rw [List.map_nil] at later
        simp [scan,later]
      | cons first outer => exact ih outer

theorem getElem?_eq_some_iff {w : List Token} {i : Nat} {t : Token} :
    w[i]? = some t ↔ ∃ front rest, w = front ++ t :: rest ∧ front.length = i := by
  constructor
  · intro found
    obtain ⟨bound,rfl⟩ := List.getElem?_eq_some_iff.1 found
    refine ⟨w.take i,w.drop (i + 1),?_,List.length_take_of_le (Nat.le_of_lt bound)⟩
    rw [List.getElem_cons_drop,List.take_append_drop]
  · rintro ⟨front,rest,rfl,rfl⟩
    simp

/-- Where the symbols of a word are numbered, each one has its place as its number. -/
theorem exists_numbered_iff {w : List Token} {i : Nat} {t : Token} {P : List Token → List Token → Prop} :
    (∃ front rest, w.zipIdx = front ++ (t,i) :: rest ∧ P (front.map Prod.fst) (rest.map Prod.fst)) ↔
      ∃ front rest, w = front ++ t :: rest ∧ front.length = i ∧ P front rest := by
  constructor
  · rintro ⟨front,rest,same,held⟩
    obtain ⟨u,v,rfl,rfl,behind⟩ := List.zipIdx_eq_append_iff.1 same
    obtain ⟨s,x,rfl,own,rfl⟩ := List.zipIdx_eq_cons_iff.1 behind.symm
    obtain ⟨rfl,place⟩ := Prod.mk.inj own
    simp only [List.zipIdx_map_fst] at held
    exact ⟨u,x,rfl,by omega,held⟩
  · rintro ⟨front,rest,rfl,rfl,held⟩
    refine ⟨front.zipIdx,rest.zipIdx (front.length + 1),by simp [List.zipIdx_append],?_⟩
    simpa only [List.zipIdx_map_fst] using held

/-- What a scan reports of a numbered word are the closing symbols without a partner. -/
theorem mem_closings_iff {w : List Token} {i : Nat} :
    i ∈ (scan [] w.zipIdx).1 ↔ w[i]? = some .closing ∧ Alone w i := by
  rw [mem_scan_closings,List.length_nil,
    exists_numbered_iff (P := fun front _ => (surplus 0 front).2 = 0),getElem?_eq_some_iff]
  constructor
  · rintro ⟨front,rest,rfl,rfl,closed⟩
    exact ⟨⟨front,rest,rfl,rfl⟩,(alone_closing_iff front rest).2 closed⟩
  · rintro ⟨⟨front,rest,rfl,rfl⟩,alone⟩
    exact ⟨front,rest,rfl,rfl,(alone_closing_iff front rest).1 alone⟩

theorem mem_openings_iff {w : List Token} {i : Nat} :
    i ∈ (scan [] w.zipIdx).2 ↔ w[i]? = some .opening ∧ Alone w i := by
  have none_ : ¬ ∃ k, ([] : List Nat)[k]? = some i ∧ (surplus 0 (w.zipIdx.map Prod.fst)).1 ≤ k := by simp
  rw [mem_scan_openings,or_iff_left none_,
    exists_numbered_iff (P := fun _ rest => (surplus 0 rest).1 = 0),getElem?_eq_some_iff]
  constructor
  · rintro ⟨front,rest,rfl,rfl,level⟩
    exact ⟨⟨front,rest,rfl,rfl⟩,(alone_opening_iff front rest).2 level⟩
  · rintro ⟨⟨front,rest,rfl,rfl⟩,alone⟩
    exact ⟨front,rest,rfl,rfl,(alone_opening_iff front rest).1 alone⟩

end Scanning

section Codes
variable {symbols : Symbols}

/-- A word with lines is that of a code: its symbols are those that are read from each line to the end,
and they have the number of the line. -/
def IsWord (symbols : Symbols) (code : Text) (w : List (Token × Nat)) : Prop :=
  ∃ found : List (List Token), List.Forall₂ (fun line ts => symbols.Reads line ts []) (Text.bareLines code) found ∧
    w = (found.zipIdx 1).flatMap fun (ts,number) => ts.map fun t => (t,number)

theorem isWord_iff {code : Text} {w : List (Token × Nat)} : symbols.IsWord code w ↔ w = symbols.locate code := by
  have read (found : List (List Token)) :
      List.Forall₂ (fun line ts => symbols.Reads line ts []) (Text.bareLines code) found ↔
        (Text.bareLines code).map symbols.tokens = found := by
    rw [← List.forall₂_eq_eq_eq,List.forall₂_map_left_iff]
    simp only [reads_iff,eq_comm]
  have numbered (number : Nat) (ls : List Text) : ((ls.map symbols.tokens).zipIdx number).flatMap
      (fun (ts,number) => ts.map fun t => (t,number)) = symbols.locateFrom number ls := by
    induction ls generalizing number with
    | nil => rfl
    | cons line ls ih => rw [List.map_cons,List.zipIdx_cons,List.flatMap_cons,ih,locateFrom]
  unfold IsWord locate
  simp only [read]
  rw [← numbered]
  constructor
  · rintro ⟨_,same,told⟩
    exact same ▸ told
  · intro same
    exact ⟨_,rfl,same⟩

def report (symbols : Symbols) : Token × Nat → Issue
  | (.closing,number) => symbols.unmatched number
  | (.opening,number) => symbols.unclosed number

/-- The issues of a code whose symbols are these. -/
structure Explained (symbols : Symbols) (w : List (Token × Nat)) (found : List Issue) : Prop where
  clean_iff : found = [] ↔ Balanced (w.map Prod.fst)
  fewest : IsLeast {k | ∃ kept, kept.Sublist (w.map Prod.fst) ∧ Balanced kept ∧ w.length = kept.length + k}
    found.length
  lonely : ∃ places : List Nat, places.Nodup ∧
    (∀ i, i ∈ places ↔ i < w.length ∧ Alone (w.map Prod.fst) i) ∧
    places.map (fun i => w[i]?.map symbols.report) = found.map some
  ordered : found.Pairwise fun a b => a.line ≤ b.line

/-- The line of the symbol at a place of a word. -/
def lineAt (w : List (Token × Nat)) (i : Nat) : Nat := (w[i]?.map Prod.snd).getD 0

theorem scan_lineAt (w : List (Token × Nat)) : scan [] w =
    ((scan [] (w.map Prod.fst).zipIdx).1.map (lineAt w),(scan [] (w.map Prod.fst).zipIdx).2.map (lineAt w)) := by
  have whole : (w.map Prod.fst).zipIdx.map (Prod.map id (lineAt w)) = w := by
    apply List.ext_getElem?
    intro i
    rw [List.getElem?_map,List.getElem?_zipIdx,List.getElem?_map,Option.map_map,Option.map_map]
    cases found : w[i]? with
    | none => rfl
    | some p => simp [lineAt,found]
  have mapped := scan_map (lineAt w) [] (w.map Prod.fst).zipIdx
  rwa [whole] at mapped

theorem report_lineAt {w : List (Token × Nat)} {i : Nat} {t : Token} (found : (w.map Prod.fst)[i]? = some t) :
    w[i]?.map symbols.report = some (symbols.report (t,lineAt w i)) := by
  rw [List.getElem?_map] at found
  obtain ⟨p,own,rfl⟩ := Option.map_eq_some_iff.1 found
  simp [lineAt,own]

theorem alone_places_iff {w : List Token} {i : Nat} :
    i ∈ (scan [] w.zipIdx).1 ++ (scan [] w.zipIdx).2 ↔ i < w.length ∧ Alone w i := by
  rw [List.mem_append,mem_closings_iff,mem_openings_iff,← or_and_right,and_congr_left_iff]
  intro _
  constructor
  · rintro (found | found)
    · exact (List.getElem?_eq_some_iff.1 found).1
    · exact (List.getElem?_eq_some_iff.1 found).1
  · intro bound
    rw [List.getElem?_eq_getElem bound]
    cases w[i] with
    | opening => exact .inr rfl
    | closing => exact .inl rfl

/-- Each issue of a code is about a symbol of its own, and these are the ones without a partner. -/
theorem exists_places (symbols : Symbols) (code : Text) : ∃ places : List Nat, places.Nodup ∧
    (∀ i, i ∈ places ↔ i < (symbols.locate code).length ∧ Alone (symbols.word code) i) ∧
    places.map (fun i => (symbols.locate code)[i]?.map symbols.report) = (symbols.issues code).map some := by
  let w := symbols.locate code
  let closings := (scan [] (symbols.word code).zipIdx).1
  let openings := (scan [] (symbols.word code).zipIdx).2
  have told : scan [] w = (closings.map (lineAt w),openings.map (lineAt w)) := scan_lineAt w
  let unsorted := (closings.map (lineAt w)).map symbols.unmatched ++ (openings.map (lineAt w)).map symbols.unclosed
  have sorted : (symbols.issues code).Perm unsorted := by
    unfold issues
    rw [show scan [] (symbols.locate code) = _ from told]
    exact Ordered.sort_perm _ _
  have about : unsorted.map some = (closings ++ openings).map fun i => w[i]?.map symbols.report := by
    rw [List.map_append,List.map_append,List.map_map,List.map_map,List.map_map,List.map_map]
    refine congrArg₂ (· ++ ·) (List.map_congr_left fun i member => ?_) (List.map_congr_left fun i member => ?_)
    · exact (report_lineAt (mem_closings_iff.1 member).1).symm
    · exact (report_lineAt (mem_openings_iff.1 member).1).symm
  rw [← List.forall₂_eq_eq_eq,List.forall₂_map_left_iff,List.forall₂_map_right_iff] at about
  -- Sorting the issues takes their places along.
  obtain ⟨places,own,same⟩ := List.perm_comp_forall₂ sorted about
  have listed : List.Forall₂ (· = ·) ((symbols.issues code).map some)
      (places.map fun i => w[i]?.map symbols.report) :=
    List.forall₂_map_left_iff.2 (List.forall₂_map_right_iff.2 own)
  rw [List.forall₂_eq_eq_eq] at listed
  have once : (closings ++ openings).Nodup := by
    obtain ⟨taken,alike,sublist⟩ := scan_subperm [] (symbols.word code).zipIdx
    have numbers : ((symbols.word code).zipIdx.map Prod.snd).Nodup := by
      rw [List.zipIdx_map_snd]
      exact List.nodup_range'
    exact alike.nodup_iff.1 (sublist.nodup numbers)
  refine ⟨places,same.nodup_iff.2 once,fun i => ?_,listed.symm⟩
  rw [same.mem_iff,alone_places_iff,word,List.length_map]

theorem explained_issues (symbols : Symbols) (code : Text) :
    symbols.Explained (symbols.locate code) (symbols.issues code) where
  clean_iff := by
    rw [issues_eq_nil_iff,balanced_iff]
    rfl
  fewest := by
    have count : (symbols.issues code).length = Symbols.lonely 0 ((symbols.locate code).map Prod.fst) := by
      unfold issues
      rw [(Ordered.sort_perm _ _).length_eq]
      simp [Symbols.lonely,length_scan]
    rw [count,← List.length_map Prod.fst]
    exact isLeast_lonely _
  lonely := exists_places symbols code
  ordered := by
    unfold issues
    refine (Ordered.pairwise_sort (fun a b => ?_) (fun a b c => ?_) _).imp of_decide_eq_true
    · simpa using Int.le_total a.line b.line
    · simpa using Int.le_trans

/-- The issues of a code are explained by the word that is read from its lines. -/
theorem issues_explained (symbols : Symbols) (code : Text) :
    ∃ w, (∀ v, symbols.IsWord code v ↔ v = w) ∧ symbols.Explained w (symbols.issues code) :=
  ⟨symbols.locate code,fun _ => isWord_iff,explained_issues symbols code⟩

end Codes

end Recast.Symbols
