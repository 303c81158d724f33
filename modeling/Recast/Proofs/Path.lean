import Recast.Path
import Recast.Proofs.Text.Search

/-! Paths in normal form are read back as they are written. -/
namespace Recast

namespace Text

theorem pieces_of_notMem {mark : Char} {s : Text} (absent : mark ∉ s) : pieces mark s = [s] := by
  induction s with
  | nil => rfl
  | cons c s ih =>
    have other : c ≠ mark := fun same => absent (by simp [same])
    rw [pieces,if_neg other,ih fun inside => absent (by simp [inside])]

theorem pieces_append (mark : Char) (s t : Text) :
    pieces mark (s ++ mark :: t) = pieces mark s ++ pieces mark t := by
  induction s with
  | nil => simp [pieces]
  | cons c s ih =>
    rw [List.cons_append,pieces,pieces,ih]
    split
    · rfl
    · cases held : pieces mark s with
      | nil => exact absurd held (pieces_ne_nil mark s)
      | cons p ps => rfl

theorem notMem_pieces {mark : Char} {s piece : Text} (member : piece ∈ pieces mark s) :
    mark ∉ piece := by
  induction s generalizing piece with
  | nil =>
    rw [List.mem_singleton.1 member]
    simp
  | cons c s ih =>
    unfold pieces at member
    split at member
    · rcases List.mem_cons.1 member with rfl | later
      · simp
      · exact ih later
    · rename_i other
      split at member
      · rw [List.mem_singleton.1 member]
        simpa using Ne.symm other
      · rename_i first rest held
        rw [held] at ih
        rcases List.mem_cons.1 member with rfl | later
        · simpa [Ne.symm other] using ih (by simp : first ∈ first :: rest)
        · exact ih (by simp [later])

theorem pieces_join {mark : Char} {parts : List Text} (some_ : parts ≠ [])
    (absent : ∀ p ∈ parts, mark ∉ p) : pieces mark (join [mark] parts) = parts := by
  induction parts with
  | nil => exact absurd rfl some_
  | cons p rest ih =>
    cases rest with
    | nil => simpa [join] using pieces_of_notMem (absent p (by simp))
    | cons q rest =>
      have later := ih (by simp) fun other member => absent other (by simp [member])
      have shape : join [mark] (p :: q :: rest) = p ++ mark :: join [mark] (q :: rest) := by
        simp [join,List.intercalate]
      rw [shape,pieces_append,pieces_of_notMem (absent p (by simp)),later]
      rfl

theorem of_mem_join {c : Char} {between : Text} {parts : List Text} (member : c ∈ join between parts) :
    c ∈ between ∨ ∃ p ∈ parts, c ∈ p := by
  induction parts with
  | nil => simp [join,List.intercalate] at member
  | cons p rest ih =>
    cases rest with
    | nil => exact .inr ⟨p,by simp,by simpa [join,List.intercalate] using member⟩
    | cons q rest =>
      have shape : join between (p :: q :: rest) = p ++ (between ++ join between (q :: rest)) := by
        simp [join,List.intercalate]
      rw [shape,List.mem_append,List.mem_append] at member
      rcases member with first | middle | later
      · exact .inr ⟨p,by simp,first⟩
      · exact .inl middle
      · rcases ih later with middle | ⟨r,inside,found⟩
        · exact .inl middle
        · exact .inr ⟨r,by simp [inside],found⟩

theorem mem_join {c : Char} (between : Text) {p : Text} {parts : List Text} (inside : p ∈ parts)
    (member : c ∈ p) : c ∈ join between parts := by
  induction parts with
  | nil => cases inside
  | cons q rest ih =>
    cases rest with
    | nil =>
      rw [List.mem_singleton.1 inside] at member
      simpa [join,List.intercalate] using member
    | cons r rest =>
      have shape : join between (q :: r :: rest) = q ++ (between ++ join between (r :: rest)) := by
        simp [join,List.intercalate]
      rw [shape,List.mem_append,List.mem_append]
      rcases List.mem_cons.1 inside with rfl | later
      · exact .inl member
      · exact .inr (.inr (ih later))

theorem mem_of_mem_pieces {mark c : Char} {s p : Text} (inside : p ∈ pieces mark s) (member : c ∈ p) :
    c ∈ s := by
  rw [← join_pieces mark s]
  exact mem_join [mark] inside member

/-- A stretch without marks lies within one piece of a text, and the other pieces do not depend on
it. -/
theorem mem_pieces {mark c : Char} {s : Text} (member : c ∈ s) (other : c ≠ mark) :
    ∃ p ∈ pieces mark s, c ∈ p := by
  induction s with
  | nil => cases member
  | cons d s ih =>
    unfold pieces
    split
    · rename_i same
      rcases List.mem_cons.1 member with rfl | later
      · exact absurd same other
      · obtain ⟨p,inside,here⟩ := ih later
        exact ⟨p,by simp [inside],here⟩
    · cases held : pieces mark s with
      | nil => exact absurd held (pieces_ne_nil mark s)
      | cons first rest =>
        rw [held] at ih
        rcases List.mem_cons.1 member with rfl | later
        · exact ⟨c :: first,by simp,by simp⟩
        · obtain ⟨p,inside,here⟩ := ih later
          rcases List.mem_cons.1 inside with rfl | behind
          · exact ⟨d :: p,by simp,by simp [here]⟩
          · exact ⟨p,by simp [behind],here⟩

theorem pieces_around (mark : Char) (s t : Text) :
    ∃ before left right after, ∀ w : Text, mark ∉ w →
      pieces mark (s ++ (w ++ t)) = before ++ (left ++ (w ++ right)) :: after := by
  obtain ⟨right,after,behind⟩ : ∃ right after, ∀ w : Text, mark ∉ w →
      pieces mark (w ++ t) = (w ++ right) :: after := by
    cases held : pieces mark t with
    | nil => exact absurd held (pieces_ne_nil mark t)
    | cons right after =>
      refine ⟨right,after,fun w absent => ?_⟩
      induction w with
      | nil => exact held
      | cons c w ih =>
        have other : c ≠ mark := fun same => absent (by simp [same])
        rw [List.cons_append,pieces,if_neg other,ih fun inside => absent (by simp [inside])]
        rfl
  induction s with
  | nil => exact ⟨[],[],right,after,behind⟩
  | cons c s ih =>
    obtain ⟨before,left,right,after,same⟩ := ih
    by_cases here : c = mark
    · refine ⟨[] :: before,left,right,after,fun w absent => ?_⟩
      rw [List.cons_append,pieces,if_pos here,same w absent]
      rfl
    · cases before with
      | nil =>
        refine ⟨[],c :: left,right,after,fun w absent => ?_⟩
        rw [List.cons_append,pieces,if_neg here,same w absent]
        rfl
      | cons first before =>
        refine ⟨(c :: first) :: before,left,right,after,fun w absent => ?_⟩
        rw [List.cons_append,pieces,if_neg here,same w absent]
        rfl

end Text

namespace Path
open Text

/-- A part that is kept in a path. -/
def IsPart (p : Text) : Prop := p ≠ [] ∧ p ≠ ['.'] ∧ '/' ∉ p

theorem isPart_of_mem {s p : Text} (member : p ∈ partsOf s) : IsPart p := by
  obtain ⟨inside,kept⟩ := List.mem_filter.1 member
  have told : p ≠ [] ∧ p ≠ ['.'] := by simpa using kept
  exact ⟨told.1,told.2,notMem_pieces inside⟩

theorem partsOf_join {parts : List Text} (fine : ∀ p ∈ parts, IsPart p) :
    partsOf (join ['/'] parts) = parts := by
  cases parts with
  | nil => rfl
  | cons p rest =>
    unfold partsOf
    rw [pieces_join (by simp) fun q member => (fine q member).2.2]
    exact List.filter_eq_self.2 fun q member => by simp [(fine q member).1,(fine q member).2.1]

theorem partsOf_slash (s : Text) : partsOf ('/' :: s) = partsOf s := by
  unfold partsOf
  rw [pieces,if_pos rfl]
  simp

/-- The slashes that a path may begin with. -/
def IsRoot (root : Text) : Prop := root = [] ∨ root = ['/'] ∨ root = ['/','/']

theorem isRoot_ofText (s : Text) : IsRoot (ofText s).root := by
  unfold ofText
  dsimp only
  split
  · exact .inr (.inl rfl)
  · exact .inr (.inr rfl)
  · exact .inr (.inl rfl)
  · exact .inl rfl

private theorem ofText_append {root : Text} (slashes : IsRoot root) {c : Char} (other : c ≠ '/')
    (s : Text) : ofText (root ++ c :: s) = ⟨root,partsOf (c :: s)⟩ := by
  rcases slashes with rfl | rfl | rfl
  · simp [ofText,other]
  · simp [ofText,other,partsOf_slash]
  · simp [ofText,other,partsOf_slash]

private theorem join_head {parts : List Text} (some_ : parts ≠ []) (fine : ∀ p ∈ parts, IsPart p) :
    ∃ c t, join ['/'] parts = c :: t ∧ c ≠ '/' := by
  cases parts with
  | nil => exact absurd rfl some_
  | cons p rest =>
    obtain ⟨filled,_,absent⟩ := fine p (by simp)
    cases p with
    | nil => exact absurd rfl filled
    | cons c p =>
      refine ⟨c,p ++ (join ['/'] ([] :: rest)),?_,fun same => absent (by simp [same])⟩
      cases rest <;> simp [join,List.intercalate]

/-- A path is read back as it is written. -/
theorem ofText_toText (s : Text) : ofText (ofText s).toText = ofText s := by
  have slashes := isRoot_ofText s
  have fine : ∀ p ∈ (ofText s).parts, IsPart p := fun p => isPart_of_mem
  generalize ofText s = path at slashes fine
  obtain ⟨root,parts⟩ := path
  cases parts with
  | nil => rcases slashes with rfl | rfl | rfl <;> rfl
  | cons p rest =>
    have whole := partsOf_join fine
    obtain ⟨c,t,same,other⟩ := join_head (by simp) fine
    have written : toText ⟨root,p :: rest⟩ = root ++ c :: t := by
      unfold toText
      rw [← same]
      rcases slashes with rfl | rfl | rfl <;> rfl
    rw [written,ofText_append slashes other,← same,whole]

/-- A relative path in normal form that never leads back. -/
structure Plain (s : Text) : Prop where
  normal : (ofText s).toText = s
  relative : (ofText s).root = []
  filled : (ofText s).parts ≠ []
  onward : ['.','.'] ∉ (ofText s).parts

instance (s : Text) : Decidable (Plain s) :=
  decidable_of_iff ((ofText s).toText = s ∧ (ofText s).root = [] ∧ (ofText s).parts ≠ [] ∧
      ['.','.'] ∉ (ofText s).parts)
    ⟨fun ⟨normal,relative,filled,onward⟩ => ⟨normal,relative,filled,onward⟩,
      fun plain => ⟨plain.normal,plain.relative,plain.filled,plain.onward⟩⟩

theorem Plain.ne_nil {s : Text} (plain : Plain s) : s ≠ [] := by
  rintro rfl
  exact plain.filled rfl

/-- A part that a path keeps and that does not lead back. -/
def IsName (p : Text) : Prop := IsPart p ∧ p ≠ ['.','.']

theorem ofText_join {parts : List Text} (some_ : parts ≠ []) (fine : ∀ p ∈ parts, IsPart p) :
    ofText (join ['/'] parts) = ⟨[],parts⟩ := by
  obtain ⟨c,t,same,other⟩ := join_head some_ fine
  have whole := partsOf_join fine
  rw [same] at whole ⊢
  have read := ofText_append (.inl rfl : IsRoot []) other t
  rw [List.nil_append,whole] at read
  exact read

theorem toText_relative {parts : List Text} (some_ : parts ≠ []) :
    toText ⟨[],parts⟩ = join ['/'] parts := by
  cases parts with
  | nil => exact absurd rfl some_
  | cons p rest => rfl

theorem plain_join {parts : List Text} (some_ : parts ≠ []) (fine : ∀ p ∈ parts, IsName p) :
    Plain (join ['/'] parts) := by
  have read := ofText_join some_ fun p member => (fine p member).1
  refine ⟨?_,?_,?_,?_⟩
  · rw [read,toText_relative some_]
  · rw [read]
  · rwa [read]
  · rw [read]
    exact fun back => (fine _ back).2 rfl

theorem Plain.same {s t : Text} (plain : Plain s) (other : Plain t)
    (parts : (ofText s).parts = (ofText t).parts) : s = t := by
  have paths : ofText s = ofText t := by
    cases held : ofText s with
    | mk root some_ =>
      cases there : ofText t with
      | mk root_ some__ =>
        have left := plain.relative
        have right := other.relative
        rw [held] at left parts
        rw [there] at right parts
        simp only at left right parts
        rw [left,right,parts]
  rw [← plain.normal,paths,other.normal]

theorem child_part {p : Text} (part : IsPart p) (q : Path) : q.child p = ⟨q.root,q.parts ++ [p]⟩ := by
  have read : ofText p = ⟨[],[p]⟩ := by
    have joined := ofText_join (by simp) (fun r member => List.mem_singleton.1 member ▸ part : ∀ r ∈ [p], IsPart r)
    simpa [join,List.intercalate] using joined
  unfold child append
  rw [read]
  rfl

theorem ofParts_append (parts : List Text) (p : Text) :
    ofParts (parts ++ [p]) = (ofParts parts).child p := by
  unfold ofParts
  rw [List.foldl_append]
  rfl

theorem ofParts_of_isPart {parts : List Text} (fine : ∀ p ∈ parts, IsPart p) :
    ofParts parts = ⟨[],parts⟩ := by
  have all (front : List Text) : parts.foldl child ⟨[],front⟩ = ⟨[],front ++ parts⟩ := by
    induction parts generalizing front with
    | nil => simp
    | cons p rest ih =>
      rw [List.foldl_cons,child_part (fine p (by simp)),ih fun q member => fine q (by simp [member])]
      simp
  exact all []

/-- The text of a path ends with its last parts. -/
theorem toText_ends (root : Text) (parts : List Text) :
    ∃ front, ∀ p rest, toText ⟨root,parts ++ p :: rest⟩ = front ++ join ['/'] (p :: rest) := by
  obtain ⟨front,joined⟩ : ∃ front, ∀ p rest,
      join ['/'] (parts ++ p :: rest) = front ++ join ['/'] (p :: rest) := by
    induction parts with
    | nil => exact ⟨[],fun p rest => rfl⟩
    | cons q parts ih =>
      obtain ⟨front,same⟩ := ih
      refine ⟨q ++ '/' :: front,fun p rest => ?_⟩
      have shape : join ['/'] (q :: (parts ++ p :: rest)) =
          q ++ '/' :: join ['/'] (parts ++ p :: rest) := by
        cases parts <;> simp [join,List.intercalate]
      rw [List.cons_append,shape,same]
      simp
  refine ⟨root ++ front,fun p rest => ?_⟩
  have filled : (parts ++ p :: rest).isEmpty = false := by simp
  unfold toText
  simp [filled,joined]

theorem toText_last (root : Text) (parts : List Text) :
    ∃ front, ∀ p, toText ⟨root,parts ++ [p]⟩ = front ++ p := by
  obtain ⟨front,ends⟩ := toText_ends root parts
  exact ⟨front,fun p => by rw [ends]; simp [join,List.intercalate]⟩

/-- The slashes before a path do not depend on what follows another character. -/
theorem root_append (s : Text) {c : Char} (other : c ≠ '/') (t : Text) :
    (ofText (s ++ c :: t)).root = (ofText (s ++ [c])).root := by
  unfold ofText
  match s with
  | [] => simp [other]
  | [d] => by_cases slash : d = '/' <;> simp [slash,other]
  | [d,e] =>
    by_cases first : d = '/' <;> by_cases second : e = '/' <;> simp [first,second,other]
  | d :: e :: f :: rest =>
    by_cases first : d = '/' <;> by_cases second : e = '/' <;> by_cases third : f = '/' <;>
      simp [first,second,third]

/-- A part within a path stands within its text. -/
theorem toText_around (root : Text) (before after : List Text) :
    ∃ front back, ∀ p, toText ⟨root,before ++ p :: after⟩ = front ++ (p ++ back) := by
  obtain ⟨front,ends⟩ := toText_ends root before
  cases after with
  | nil => exact ⟨front,[],fun p => by rw [ends]; simp [join,List.intercalate]⟩
  | cons q after =>
    exact ⟨front,'/' :: join ['/'] (q :: after),fun p => by rw [ends]; simp [join,List.intercalate]⟩

/-- A word that no path would drop stands in the text of every path that it is put into. -/
theorem child_around (q : Path) (s t : Text) :
    ∃ front back, ∀ w : Text, '/' ∉ w →
      (q.child (s ++ '_' :: (w ++ t))).toText = front ++ (w ++ back) := by
  obtain ⟨before,left,right,after,cut⟩ := Text.pieces_around '/' s t
  have low : '_' ≠ '/' := by decide
  have parts (w : Text) (absent : '/' ∉ w) : partsOf (s ++ '_' :: (w ++ t)) =
      (before.filter fun p => !p.isEmpty && p ≠ ['.']) ++ (left ++ '_' :: (w ++ right)) ::
        after.filter fun p => !p.isEmpty && p ≠ ['.'] := by
    have whole := cut ('_' :: w) (by simpa using absent)
    have some_ : left ++ '_' :: (w ++ right) ≠ [] := by simp
    have other : left ++ '_' :: (w ++ right) ≠ ['.'] := by
      intro same
      have inside : '_' ∈ left ++ '_' :: (w ++ right) := by simp
      rw [same] at inside
      exact absurd inside (by decide)
    rw [List.cons_append,List.cons_append] at whole
    unfold partsOf
    rw [whole,List.filter_append,List.filter_cons_of_pos (by simp [some_,other])]
  have read (w : Text) (absent : '/' ∉ w) : ofText (s ++ '_' :: (w ++ t)) =
      ⟨(ofText (s ++ ['_'])).root,(before.filter fun p => !p.isEmpty && p ≠ ['.']) ++
        (left ++ '_' :: (w ++ right)) :: after.filter fun p => !p.isEmpty && p ≠ ['.']⟩ := by
    rw [← root_append s low (w ++ t),← parts w absent]
    rfl
  obtain ⟨root,rest,placed⟩ : ∃ root rest, ∀ w : Text, '/' ∉ w →
      q.child (s ++ '_' :: (w ++ t)) = ⟨root,rest ++ (left ++ '_' :: (w ++ right)) ::
        after.filter fun p => !p.isEmpty && p ≠ ['.']⟩ := by
    unfold child append
    by_cases relative : (ofText (s ++ ['_'])).root = []
    · refine ⟨q.root,q.parts ++ before.filter fun p => !p.isEmpty && p ≠ ['.'],fun w absent => ?_⟩
      rw [read w absent]
      simp [relative]
    · refine ⟨(ofText (s ++ ['_'])).root,before.filter fun p => !p.isEmpty && p ≠ ['.'],
        fun w absent => ?_⟩
      rw [read w absent]
      simp [relative]
  obtain ⟨front,back,written⟩ := toText_around root rest (after.filter fun p => !p.isEmpty && p ≠ ['.'])
  refine ⟨front ++ (left ++ ['_']),right ++ back,fun w absent => ?_⟩
  rw [placed w absent,written]
  simp

end Path

end Recast
