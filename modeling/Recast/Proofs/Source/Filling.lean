import Recast.Proofs.Source.Seated

/-! The filling of an outline whose markers may be lost. Bodies are put in place of their markers, and
those without one at the cut; the filled outline holds each of them in one piece unless a marker or the
cut tears it. -/
namespace Recast.Outline
open Text

namespace Traced
variable {i : Nat} {body closing skeleton : Text} {bodies : List Text} {x : Traced}

theorem below_ofOutline (skeleton : Text) : (ofOutline skeleton).Below 0 := by
  intro e member i label
  obtain ⟨left,same⟩ := mem_ofOutline member
  rw [same] at label
  cases label

theorem reassemble_of_none (none_ : ((ofOutline skeleton).place 0 bodies).2 = []) :
    reassemble closing skeleton bodies = ((ofOutline skeleton).place 0 bodies).1 := by
  unfold reassemble
  dsimp only
  rw [none_]
  rfl

/-- What is put at the cut. -/
def inserted (closing : Text) (x : Traced) (missing : List (Text × Nat)) : Traced :=
  of .added (parting closing x.text (block missing).text) ++ block missing

theorem reassemble_of_some (some_ : ((ofOutline skeleton).place 0 bodies).2 ≠ []) :
    reassemble closing skeleton bodies =
      let x := ((ofOutline skeleton).place 0 bodies).1
      x.take (cutAt closing x.text) ++ inserted closing x ((ofOutline skeleton).place 0 bodies).2 ++
        x.drop (cutAt closing x.text) := by
  unfold reassemble inserted
  dsimp only
  rw [if_neg (by simpa using some_)]
  simp

theorem mem_inserted {missing : List (Text × Nat)} {e : Char × Origin} (member : e ∈ inserted closing x missing)
    (label : e.2 = .body i) : ∃ m ∈ missing, m.2 = i := by
  rcases List.mem_append.1 member with own | own
  · exact absurd label (ne_of_added own)
  · exact mem_block own label

theorem Whole.inserted {missing : List (Text × Nat)} (whole : (block missing).Whole i body) (closing : Text)
    (x : Traced) : (inserted closing x missing).Whole i body := by
  rw [← List.append_nil (Traced.inserted closing x missing)]
  exact whole.within (fun _ => ne_of_added) (by simp)

theorem eq_of_missing {m : Text × Nat} (missing : m ∈ ((ofOutline skeleton).place 0 bodies).2) :
    bodies[m.2]? = some m.1 := by
  have there := (missing_sublist 0 (ofOutline skeleton) bodies).subset missing
  exact List.mem_zipIdx_iff_getElem?.1 there

/-- No marker reaches into a body, and the cut parts none: then each body stands in one piece. -/
theorem whole_reassemble (spared : (ofOutline skeleton).Along Site.Spares 0 bodies)
    (kept : ((ofOutline skeleton).place 0 bodies).2 = [] ∨
      ¬ ((ofOutline skeleton).place 0 bodies).1.Parted
        (cutAt closing ((ofOutline skeleton).place 0 bodies).1.text))
    (here : bodies[i]? = some body) : (reassemble closing skeleton bodies).Whole i body := by
  have below := below_ofOutline skeleton
  have told := below.whole_place spared here
  rw [Nat.zero_add] at told
  by_cases none_ : ((ofOutline skeleton).place 0 bodies).2 = []
  · rw [reassemble_of_none none_]
    exact told.resolve_left (by simp [none_])
  rw [reassemble_of_some none_]
  by_cases missing : (body,i) ∈ ((ofOutline skeleton).place 0 bodies).2
  · have fresh := below.missing missing
    have distinct : (((ofOutline skeleton).place 0 bodies).2.map Prod.snd).Nodup := by
      refine ((missing_sublist 0 (ofOutline skeleton) bodies).map Prod.snd).nodup ?_
      rw [List.zipIdx_map_snd]
      exact List.nodup_range'
    have inside := (whole_block distinct missing).inserted closing ((ofOutline skeleton).place 0 bodies).1
    exact inside.within (fun e member => fresh e (List.mem_of_mem_take member))
      fun e member => fresh e (List.mem_of_mem_drop member)
  · refine (told.resolve_left missing).splice (kept.resolve_left none_) fun e member label => ?_
    obtain ⟨m,inside,rfl⟩ := mem_inserted member label
    have same := eq_of_missing inside
    rw [here] at same
    cases same
    exact missing inside

/-- A body of which a character is lost, or which is parted, does not stand in one piece. -/
theorem spared_of_whole (whole : ∀ i body, bodies[i]? = some body →
      (reassemble closing skeleton bodies).Whole i body) :
    (ofOutline skeleton).Along Site.Spares 0 bodies ∧
      (((ofOutline skeleton).place 0 bodies).2 = [] ∨
        ¬ ((ofOutline skeleton).place 0 bodies).1.Parted
          (cutAt closing ((ofOutline skeleton).place 0 bodies).1.text)) := by
  have below := below_ofOutline skeleton
  constructor
  · refine Classical.byContradiction fun torn => ?_
    have sizes (i : Nat) (body : Text) (_ : bodies[i]? = some body) :
        size i (ofOutline skeleton) ≤ body.length := by
      rw [size_eq_zero fun e member label => Nat.not_lt_zero i (below e member i label)]
      exact Nat.zero_le _
    obtain ⟨i,body,here,short,_,others⟩ := below.torn List.drop_zero sizes torn
    have full := (whole i body here).size
    have same : size i (reassemble closing skeleton bodies) =
        size i ((ofOutline skeleton).place 0 bodies).1 := by
      by_cases none_ : ((ofOutline skeleton).place 0 bodies).2 = []
      · rw [reassemble_of_none none_]
      · rw [reassemble_of_some none_]
        dsimp only
        rw [size_append,size_append,size_eq_zero (x := inserted ..) fun e member label => by
          obtain ⟨m,inside,same⟩ := mem_inserted member label
          exact others m inside same]
        rw [Nat.add_zero,← size_append,List.take_append_drop]
    omega
  · by_cases none_ : ((ofOutline skeleton).place 0 bodies).2 = []
    · exact .inl none_
    · refine .inr fun parted => ?_
      have some_ : inserted closing ((ofOutline skeleton).place 0 bodies).1
          ((ofOutline skeleton).place 0 bodies).2 ≠ [] := by
        simp [inserted,block_ne_nil none_]
      obtain ⟨i,⟨e,member,label⟩,torn⟩ := parted.not_whole some_ fun e member i there label => by
        obtain ⟨m,inside,rfl⟩ := mem_inserted member label
        obtain ⟨f,old,same⟩ := there
        exact below.missing inside f old same
      have within := (below.place bodies) e member i label
      rw [Nat.zero_add] at within
      have piece := whole i _ (List.getElem?_eq_getElem within)
      rw [reassemble_of_some none_] at piece
      exact torn _ piece

end Traced

open Traced

/-- How a filled outline keeps its bodies in one piece, each character being followed from where it comes
from. They stay whole exactly when no marker reaches into one of them and the cut for the missing ones
parts none; and this is so if no body holds a marker, each of them ends its line, and the last closing
symbol of the text with the bodies in place is that of the outline. In that case the missing ones come
before it, in their order. -/
theorem reassemble_whole_iff (closing skeleton : Text) (bodies : List Text) :
    let start := ofOutline skeleton
    let x := (start.place 0 bodies).1
    let missing := (start.place 0 bodies).2
    let y := Traced.reassemble closing skeleton bodies
    y.text = reassemble closing skeleton bodies ∧
    missing.Sublist bodies.zipIdx ∧
    ((∀ i body, bodies[i]? = some body → y.Whole i body) ↔
      start.Along Site.Spares 0 bodies ∧ (missing = [] ∨ ¬ x.Parted (cutAt closing x.text))) ∧
    ((∀ body ∈ bodies, ¬ Marked body) → start.Along Site.Alone 0 bodies →
      (missing = [] ∨ (∃ c r, closing = c :: r ∧ c ≠ '\n' ∧ c ≠ '\r') ∧
        x.lastClose? closing = start.lastClose? closing) →
      ∀ i body, bodies[i]? = some body → y.Whole i body) ∧
    (missing ≠ [] → x.lastClose? closing = start.lastClose? closing →
      match start.lastClose? closing with
      | none => ∃ front, y = front ++ block missing
      | some origin => ∃ front line back, y = front ++ block missing ++ line ++ back ∧
        blank (Traced.text line) = true ∧ back.head?.map Prod.snd = origin) := by
  intro start x missing y
  have below := below_ofOutline skeleton
  refine ⟨Traced.text_reassemble closing skeleton bodies,missing_sublist 0 start bodies,
    ⟨spared_of_whole,fun fine _ _ => whole_reassemble fine.1 fine.2⟩,?_,?_⟩
  · intro unmarked alone own i body
    have orderly : start.Orderly := fun e member i label =>
      absurd (below e member i label) (Nat.not_lt_zero i)
    obtain ⟨spared,last⟩ := orderly.place below unmarked alone
    exact whole_reassemble spared (own.imp id fun own => last.not_parted own.1 own.2)
  · intro some_ own
    have shape : y = x.take (cutAt closing x.text) ++ inserted closing x missing ++
      x.drop (cutAt closing x.text) := reassemble_of_some some_
    rw [← own,shape]
    unfold lastClose? inserted
    cases found : cutLast? closing x.text with
    | none =>
      rw [drop_cutAt_of_none found,List.append_nil,← List.append_assoc]
      exact ⟨_,rfl⟩
    | some p =>
      obtain ⟨before,behind⟩ := p
      obtain ⟨line,same,blank_,_⟩ := drop_cutAt found
      rw [same,← List.append_assoc,← List.append_assoc]
      exact ⟨_,line,x.drop before.length,rfl,blank_,by rw [List.head?_drop]⟩

/-- The body without a marker goes into the other one, which holds the only closing symbol. -/
theorem reassemble_torn :
    let bodies : List Text := ["f() \x7b\n\x7d\n","g() \x7b\n\x7d\n"]
    (∀ body ∈ bodies, ¬ Marked body) ∧
      reassemble "\x7d" "@@BODY_0@@\n" bodies = "f() \x7b\ng() \x7b\n\x7d\n\x7d\n" ∧
      ∃ body ∈ bodies, ¬ body <:+: reassemble "\x7d" "@@BODY_0@@\n" bodies := by
  intro bodies
  refine ⟨?_,by decide +kernel,_,List.mem_cons_self,by decide +kernel⟩
  simp only [← markerIndex?_eq_none_iff]
  decide +kernel

end Recast.Outline
