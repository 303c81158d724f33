import Recast.Proofs.Source.Whole

/-! Bodies that begin a line and end one. No marker that is found reaches into such a body, and neither
does the cut before a closing symbol of the outline. -/
namespace Recast.Outline
open Text

/-- What follows a text begins a line. -/
def LineStart (s : Text) : Prop := ∀ c, s.getLast? = some c → c = '\n'

/-- A text goes on with the end of a line, or not at all. -/
def LineEnd (s : Text) : Prop := s = [] ∨ ("\n" : Text) <+: s ∨ ("\r\n" : Text) <+: s

theorem LineStart.append {s t : Text} (some_ : t ≠ []) : LineStart (s ++ t) ↔ LineStart t := by
  unfold LineStart
  rw [List.getLast?_append,List.getLast?_eq_some_getLast some_]
  rfl

theorem not_lineEnd {c : Char} {s : Text} (feed : c ≠ '\n') (return_ : c ≠ '\r') : ¬ LineEnd (c :: s) := by
  rintro (none_ | starts | starts)
  · cases none_
  · exact feed (List.cons_prefix_cons.1 starts).1.symm
  · exact return_ (List.cons_prefix_cons.1 starts).1.symm

/-- The end of a line lies before any other character. -/
theorem LineEnd.exchange {s t : Text} {c : Char} (ends : LineEnd (s ++ c :: t)) (feed : c ≠ '\n')
    (return_ : c ≠ '\r') (more : Text) : LineEnd (s ++ more) := by
  cases s with
  | nil => exact absurd ends (not_lineEnd feed return_)
  | cons d s =>
    rcases ends with none_ | starts | starts
    · cases none_
    · obtain ⟨same,_⟩ := List.cons_prefix_cons.1 starts
      exact .inr (.inl (List.cons_prefix_cons.2 ⟨same,List.nil_prefix⟩))
    · obtain ⟨same,rest⟩ := List.cons_prefix_cons.1 starts
      cases s with
      | nil => exact absurd (List.cons_prefix_cons.1 rest).1.symm feed
      | cons e s =>
        exact .inr (.inr (List.cons_prefix_cons.2 ⟨same,
          List.cons_prefix_cons.2 ⟨(List.cons_prefix_cons.1 rest).1,List.nil_prefix⟩⟩))

theorem lineStart_feed (s : Text) : LineStart (s ++ ['\n']) := by
  intro c last
  rw [List.getLast?_concat] at last
  exact (Option.some.inj last).symm

/-- Behind a body that took over the end of a line a line begins. -/
theorem lineStart_withEnding {ending : Text} (ends : ending = "\r\n" ∨ ending = "\n") (front body : Text) :
    LineStart (front ++ withEnding body ending) := by
  have brought : LineStart (front ++ (body ++ ending)) := by
    rw [← List.append_assoc]
    rcases ends with rfl | rfl
    · have feed := lineStart_feed (front ++ body ++ ['\r'])
      rwa [List.append_assoc] at feed
    · exact lineStart_feed (front ++ body)
  unfold withEnding
  split
  · rename_i closed
    rcases Bool.or_eq_true_iff.1 closed with none_ | closed
    · rw [List.isEmpty_iff.1 none_,List.append_nil] at brought
      exact brought
    · obtain ⟨start,rfl⟩ := List.isSuffixOf_iff_suffix.1 closed
      rw [← List.append_assoc]
      exact lineStart_feed (front ++ start)
  · exact brought

/-- Only the last character of the end of a line is a line feed. -/
theorem eq_nil_of_feed {line ending p q : Text} (plain : ∀ c ∈ line, c ≠ '\n')
    (ends : ending = "\r\n" ∨ ending = "\n" ∨ ending = []) (same : line ++ ending = p ++ '\n' :: q) :
    q = [] := by
  cases q with
  | nil => rfl
  | cons c q =>
    have early : '\n' ∈ (line ++ ending).dropLast := by
      rw [same,List.dropLast_append_of_ne_nil (List.cons_ne_nil _ _)]
      simp
    have last : ending = [] ∨ ending ≠ [] ∧ '\n' ∉ ending.dropLast := by
      rcases ends with rfl | rfl | rfl
      · exact .inr (by decide)
      · exact .inr (by decide)
      · exact .inl rfl
    have late : '\n' ∉ (line ++ ending).dropLast := by
      rcases last with rfl | ⟨some_,fresh⟩
      · rw [List.append_nil]
        exact fun member => plain _ ((List.dropLast_prefix line).subset member) rfl
      · rw [List.dropLast_append_of_ne_nil some_]
        intro member
        rcases List.mem_append.1 member with inside | inside
        · exact plain _ inside rfl
        · exact fresh inside
    exact absurd early late

namespace Traced
variable {x : Traced} {s : Site} {k i : Nat} {body : Text} {rest : List Text}

/-- A body stands in one piece and begins a line, and the line ends with it or right behind it. -/
structure Seated (x : Traced) (i : Nat) (body : Text) (u v : Traced) : Prop where
  parts : x = u ++ of (.body i) body ++ v
  others : ∀ e ∈ u ++ v, e.2 ≠ .body i
  start : LineStart u.text
  finish : body = [] ∨ endsWith "\n" body = true ∨ LineEnd v.text

/-- Every body in a text is seated, and holds no marker. -/
def Orderly (x : Traced) : Prop :=
  ∀ e ∈ x, ∀ i, e.2 = .body i → ∃ body u v, ¬ Marked body ∧ x.Seated i body u v

/-- A marker has no line end in it, but its line may end behind it. -/
theorem Found.core (found : x.Found k s) : ∃ core wide, s.found.text = core ++ wide ++ s.ending ∧
    marker k <:+: core ∧ core ≠ [] ∧ ∀ c ∈ core ++ wide, c ≠ '\n' ∧ c ≠ '\r' := by
  obtain ⟨gap,wide,same,left,right⟩ := found.shape
  have blank_ {c : Char} (inside : isGap c = true) : c ≠ '\n' ∧ c ≠ '\r' := by
    constructor
    · rintro rfl
      cases inside
    · rintro rfl
      cases inside
  refine ⟨gap ++ marker k,wide,same,List.infix_append_right,?_,fun c member => ?_⟩
  · obtain ⟨r,same⟩ := marker_cons k
    rw [same]
    simp
  · have apart {d : Char} (foreign : d ∉ marker k) (inside : c ∈ marker k) : c ≠ d :=
      fun same => foreign (same ▸ inside)
    simp only [List.mem_append] at member
    rcases member with (inside | inside) | inside
    · exact blank_ (left c inside)
    · exact ⟨apart (notMem_marker (by decide) (by decide) k) inside,
        apart (notMem_marker (by decide) (by decide) k) inside⟩
    · exact blank_ (right c inside)

/-- A body that begins before a marker does not reach into it. -/
theorem Seated.not_begun {u v : Traced} (seated : x.Seated i body u v) (unmarked : ¬ Marked body)
    (found : x.Found k s) {t w : Traced} (parts : of (.body i) body = w ++ t) (some_ : t ≠ [])
    (rest : s.found ++ s.behind = t ++ v) : False := by
  obtain ⟨core,wide,shape,marked,_,plain⟩ := found.core
  have spelled : body = w.text ++ t.text := by
    rw [← text_append,← parts,text_of]
  have lacking : ¬ core <:+: body := fun inside => lacks_marker unmarked k (marked.trans inside)
  have texts : core ++ (wide ++ s.ending ++ s.behind.text) = t.text ++ v.text := by
    rw [← text_append,← rest,text_append,shape]
    simp
  rcases List.append_eq_append_iff.1 texts with ⟨z,whole,_⟩ | ⟨z,whole,after⟩
  · exact lacking ⟨w.text,z,by rw [spelled,whole]; simp⟩
  · cases z with
    | nil => exact lacking ⟨w.text,[],by rw [spelled,whole]; simp⟩
    | cons c z =>
      have fresh (d : Char) (inside : d ∈ t.text ++ c :: z) := plain d (by
        rw [whole]
        exact List.mem_append_left _ inside)
      obtain ⟨front,p,last⟩ := List.eq_nil_or_concat t |>.resolve_left some_
      have ends : t.text = text front ++ [p.1] := by
        rw [last,List.concat_eq_append]
        exact text_append front [p]
      rcases seated.finish with none_ | closed | closed
      · rw [spelled,ends] at none_
        simp at none_
      · obtain ⟨start,same⟩ := List.isSuffixOf_iff_suffix.1 closed
        rw [spelled,ends,← List.append_assoc] at same
        have feed : '\n' = p.1 := List.singleton_inj.1 (List.append_inj_right' same rfl)
        exact (fresh p.1 (by rw [ends]; simp)).1 feed.symm
      · rw [after] at closed
        exact not_lineEnd (fresh c (by simp)).1 (fresh c (by simp)).2 closed

/-- A seated body and a marker that is found have no character in common. -/
theorem Seated.notMem_found {u v : Traced} (seated : x.Seated i body u v) (unmarked : ¬ Marked body)
    (found : x.Found k s) : ∀ e ∈ s.found, e.2 ≠ .body i := by
  intro e inside label
  have before : e ∉ u := fun member => seated.others e (List.mem_append_left _ member) label
  have behind : e ∉ v := fun member => seated.others e (List.mem_append_right _ member) label
  have begun {w : Traced} (rest : of (.body i) body ++ v = w ++ (s.found ++ s.behind)) : False := by
    rcases List.append_eq_append_iff.1 rest with ⟨t,_,right⟩ | ⟨t,left,right⟩
    · exact behind (by rw [right]; simp [inside])
    · refine seated.not_begun unmarked found left ?_ right
      rintro rfl
      exact behind (by rw [← List.nil_append v,← right]; simp [inside])
  have parts := found.parts.symm.trans seated.parts
  rw [List.append_assoc,List.append_assoc] at parts
  rcases List.append_eq_append_iff.1 parts with ⟨w,start,rest⟩ | ⟨w,_,rest⟩
  · by_cases empty : w = []
    · subst empty
      exact begun (w := []) rest.symm
    · -- The marker begins first, so that the body would begin a line in the middle of one.
      rcases List.append_eq_append_iff.1 rest with ⟨t,left,right⟩ | ⟨t,left,right⟩
      · exact before (by rw [start,left]; simp [inside])
      · obtain ⟨core,wide,shape,_,_,plain⟩ := found.core
        obtain ⟨front,p,last⟩ := List.eq_nil_or_concat w |>.resolve_left empty
        have feed : p.1 = '\n' := seated.start p.1 (by
          rw [start,last,List.concat_eq_append,text_append,text_append,← List.append_assoc]
          exact List.getLast?_concat)
        have spelled : (core ++ wide) ++ s.ending = text front ++ '\n' :: text t := by
          rw [← shape,left,last,List.concat_eq_append,text_append,text_append,List.append_assoc,← feed]
          rfl
        have none_ := eq_nil_of_feed (fun c member => (plain c member).1) found.ending spelled
        have empty_ : t = [] := List.map_eq_nil_iff.1 none_
        rw [left,empty_,List.append_nil] at inside
        exact before (by rw [start]; exact List.mem_append_right _ inside)
  · exact begun rest

theorem Orderly.spares (orderly : x.Orderly) (found : x.Found k s) (other : Text) : s.Spares other := by
  intro e member i label
  obtain ⟨body,u,v,unmarked,seated⟩ := orderly e (by rw [found.parts]; simp [member]) i label
  exact seated.notMem_found unmarked found e member label

/-- A seated body stays seated when another one is put in place. -/
theorem Seated.after {u v : Traced} {new : Text} (seated : x.Seated i body u v) (unmarked : ¬ Marked body)
    (some_ : body ≠ []) (found : x.Found k s) (other : i ≠ k) :
    ∃ u' v', (put s k new).Seated i body u' v' := by
  obtain ⟨core,wide,shape,_,filled_,plain⟩ := found.core
  obtain ⟨c,core,rfl⟩ := List.exists_cons_of_ne_nil filled_
  have spares := seated.notMem_found unmarked found
  have stretch : of (.body i) body ≠ [] := by simpa [of] using some_
  have label (e) (member : e ∈ filled k new s.ending) : e.2 ≠ .body i := filled_ne other member
  have others := seated.others
  rcases apart_of_append (seated.parts.symm.trans found.parts) (fun e member => mem_of member) spares
      stretch found.ne_nil with ⟨w,left,right⟩ | ⟨w,left,right⟩
  · refine ⟨u,w ++ filled k new s.ending ++ s.behind,by unfold Traced.put; rw [left]; simp,?_,seated.start,?_⟩
    · rw [right] at others
      simp only [List.forall_mem_append] at others ⊢
      exact ⟨others.1,⟨others.2.1.1,label⟩,others.2.2⟩
    · refine seated.finish.imp id (.imp id fun ends => ?_)
      rw [right,List.append_assoc,text_append,text_append,shape,List.append_assoc,List.append_assoc] at ends
      rw [List.append_assoc,text_append]
      exact ends.exchange (plain c (by simp)).1 (plain c (by simp)).2 _
  · refine ⟨s.before ++ filled k new s.ending ++ w,v,by unfold Traced.put; rw [left]; simp,?_,?_,
      seated.finish⟩
    · rw [right] at others
      simp only [List.forall_mem_append] at others ⊢
      exact ⟨⟨⟨others.1.1.1,label⟩,others.1.2⟩,others.2⟩
    · have start := seated.start
      rw [right,text_append] at start
      rw [text_append]
      by_cases empty : w = []
      · -- The body follows the marker, which ends its line.
        subst empty
        have ended : s.ending ≠ [] := by
          intro none_
          rw [text_append,text_nil,List.append_nil,shape,none_,List.append_nil] at start
          have inner := (LineStart.append (by simp)).1 start
          have last := List.getLast_mem (l := c :: core ++ wide) (by simp)
          exact (plain _ last).1 (inner _ (List.getLast?_eq_some_getLast _))
        have feeds : s.ending = "\r\n" ∨ s.ending = "\n" := by
          simpa [ended] using found.ending
        rw [text_nil,List.append_nil,text_append,text_filled]
        exact lineStart_withEnding feeds s.before.text new
      · have filled_ : text w ≠ [] := by simpa [text] using empty
        exact (LineStart.append filled_).2 ((LineStart.append filled_).1 start)

/-- A body that is put in place is seated if it ends its line, or is alone on it. -/
theorem Below.seated (below : x.Below k) (found : x.Found k s) (alone : s.Alone body) :
    (put s k body).Seated k body s.before
      (of .added ((withEnding body s.ending).drop body.length) ++ s.behind) where
  parts := by simp [Traced.put,filled]
  others := by
    have old : ∀ e ∈ x, e.2 ≠ .body k := fun e member label => Nat.lt_irrefl k (below e member k label)
    rw [found.parts] at old
    simp only [List.forall_mem_append] at old ⊢
    exact ⟨old.1.1,fun _ => ne_of_added,old.2⟩
  start := by
    rcases found.start with none_ | ⟨front,same⟩
    · rw [none_]
      exact fun c last => by cases last
    · rw [same]
      exact lineStart_feed front
  finish := by
    rw [text_append,text_of]
    refine alone.imp id fun open_ => ?_
    cases closed : endsWith "\n" body with
    | true => exact .inl rfl
    | false =>
      refine .inr ?_
      have brought : (withEnding body s.ending).drop body.length = s.ending := by
        unfold withEnding
        rw [closed,Bool.or_false]
        split
        · rename_i none_
          rw [List.isEmpty_iff.1 none_,List.drop_length]
        · rw [List.drop_left]
      rw [brought]
      rcases found.ending with same | same | same
      · rw [same]
        exact .inr (.inr (List.prefix_append ..))
      · rw [same]
        exact .inr (.inl (List.prefix_append ..))
      · rw [closed,same] at open_
        have last : s.behind = [] := by simpa using open_
        rw [same,last]
        exact .inl rfl

theorem Orderly.after (orderly : x.Orderly) (below : x.Below k) (found : x.Found k s)
    (unmarked : ¬ Marked body) (alone : s.Alone body) : (put s k body).Orderly := by
  intro e member i label
  by_cases same : i = k
  · subst same
    exact ⟨body,_,_,unmarked,below.seated found alone⟩
  · obtain ⟨f,old,label⟩ : ∃ f ∈ x, f.2 = .body i :=
      ⟨e,(found.of_put member label).resolve_right same,label⟩
    obtain ⟨other,u,v,unmarked,seated⟩ := orderly f old i label
    have some_ : other ≠ [] := by
      rintro rfl
      have inside := old
      rw [seated.parts] at inside
      exact seated.others f (by simpa [of] using inside) label
    obtain ⟨u',v',later⟩ := seated.after unmarked some_ found same
    exact ⟨other,u',v',unmarked,later⟩

/-- Where no line goes on behind a body that does not end it, no marker reaches into a body. -/
theorem Orderly.place (orderly : x.Orderly) (below : x.Below k) (unmarked : ∀ body ∈ rest, ¬ Marked body)
    (alone : x.Along Site.Alone k rest) :
    x.Along Site.Spares k rest ∧ (x.place k rest).1.Orderly := by
  induction rest generalizing k x with
  | nil => exact ⟨trivial,orderly⟩
  | cons body rest ih =>
    have later := fun other member => unmarked other (List.mem_cons_of_mem body member)
    unfold Along at alone ⊢
    cases site : x.site? k with
    | some s =>
      have found := found_of_site? site
      rw [site] at alone
      rw [place_of_site site]
      obtain ⟨spared,last⟩ := ih (orderly.after below found (unmarked body List.mem_cons_self) alone.1)
        (below.after found) later alone.2
      exact ⟨⟨orderly.spares found body,spared⟩,last⟩
    | none =>
      rw [site] at alone
      rw [place_of_none site]
      exact ih orderly below.succ later alone

/-! ### The last closing symbol -/

/-- Where the last closing symbol of a text comes from, if there is one. -/
def lastClose? (closing : Text) (x : Traced) : Option (Option Origin) :=
  (cutLast? closing x.text).map fun found => (x[found.1.length]?).map Prod.snd

theorem drop_cutAt_of_none {closing : Text} (none_ : cutLast? closing x.text = none) :
    x.drop (cutAt closing x.text) = [] := by
  unfold cutAt
  rw [none_]
  exact List.drop_eq_nil_of_le (Nat.le_of_eq (length_text x).symm)

/-- Between the cut and the last closing symbol there are only blanks, on the line of the symbol. -/
theorem drop_cutAt {closing before behind : Text} (found : cutLast? closing x.text = some (before,behind)) :
    ∃ line, x.drop (cutAt closing x.text) = line ++ x.drop before.length ∧ blank (text line) = true ∧
      '\n' ∉ text line := by
  unfold cutAt
  rw [found]
  dsimp only
  have parts := dropEndWhile_append_takeEndWhile (· ≠ '\n') before
  have sizes := congrArg List.length parts
  rw [List.length_append] at sizes
  split
  · rename_i blank_
    have line : text ((x.drop (dropEndWhile (· ≠ '\n') before).length).take
        (takeEndWhile (· ≠ '\n') before).length) = takeEndWhile (· ≠ '\n') before := by
      have spelled : x.text = dropEndWhile (· ≠ '\n') before ++
          (takeEndWhile (· ≠ '\n') before ++ (closing ++ behind)) := by
        rw [← List.append_assoc,parts,← List.append_assoc]
        exact cutLast?_eq_some found
      rw [text_take,text_drop,spelled,List.drop_left,List.take_left]
    refine ⟨_,?_,by rw [line]; exact blank_,?_⟩
    · rw [← sizes,← List.drop_drop,List.take_append_drop]
    · rw [line]
      intro member
      have inside := List.all_eq_true.1 List.all_takeWhile _ (List.mem_reverse.1 member)
      simp at inside
  · exact ⟨[],rfl,rfl,List.not_mem_nil⟩

/-- A seated body does not break off on a line that goes on. -/
theorem Seated.not_broken_off {u v front z w tail : Traced} (seated : x.Seated i body u v)
    (filled_ : of (.body i) body ≠ []) (long : u ++ of (.body i) body = front ++ z) (some_ : z ≠ [])
    (right : v = w ++ tail) (plain : '\n' ∉ text z ++ text w) {c : Char} {s : Text} (goesOn : text tail = c :: s)
    (feed : c ≠ '\n') (return_ : c ≠ '\r') : False := by
  have inner : text z ≠ [] := by simpa [text] using some_
  have spelled : u.text ++ body = text front ++ text z := by
    rw [← text_append,← long,text_append,text_of]
  rcases seated.finish with none_ | closed | ends
  · exact filled_ (by rw [none_]; rfl)
  · obtain ⟨start,rfl⟩ := List.isSuffixOf_iff_suffix.1 closed
    rw [← List.append_assoc] at spelled
    have last := lineStart_feed (u.text ++ start)
    change LineStart (u.text ++ start ++ "\n") at last
    rw [spelled,LineStart.append inner] at last
    have feed_ := last _ (List.getLast?_eq_some_getLast inner)
    exact plain (List.mem_append_left _ (feed_ ▸ List.getLast_mem inner))
  · rw [right,text_append,goesOn] at ends
    rcases ends.exchange feed return_ [] with none_ | starts | starts
    · rw [List.append_nil] at none_
      rw [none_] at ends
      exact not_lineEnd feed return_ ends
    · exact plain (List.mem_append_right _ (by simpa using starts.subset (List.mem_singleton_self '\n')))
    · exact plain (List.mem_append_right _ (by
        simpa using starts.subset (List.mem_cons_of_mem '\r' (List.mem_singleton_self '\n'))))

theorem lastClose?_ofOutline (closing skeleton : Text) (i : Nat) :
    (ofOutline skeleton).lastClose? closing ≠ some (some (.body i)) := by
  intro same
  obtain ⟨_,_,there⟩ := Option.map_eq_some_iff.1 same
  obtain ⟨e,here,label⟩ := Option.map_eq_some_iff.1 there
  obtain ⟨left,outline⟩ := mem_ofOutline (List.mem_of_getElem? here)
  rw [label] at outline
  cases outline

/-- A body that is parted by the cut goes on behind it on the same line, up to a closing symbol; if that
comes from the outline, the body ends before it. -/
theorem exists_line_of_cut {closing skeleton : Text} {u v : Traced} {a b : Char}
    (same : x = u ++ (a,.body i) :: (b,.body i) :: v) (cut : cutAt closing x.text = u.length + 1)
    (symbol : ∃ c r, closing = c :: r ∧ c ≠ '\n' ∧ c ≠ '\r')
    (own : x.lastClose? closing = (ofOutline skeleton).lastClose? closing) :
    ∃ line e tail c s, x = (u ++ [(a,.body i)] ++ line) ++ [e] ++ tail ∧ (b,.body i) ∈ line ∧
      '\n' ∉ text line ∧ e.2 ≠ .body i ∧ text (e :: tail) = c :: s ∧ c ≠ '\n' ∧ c ≠ '\r' := by
  have after : x.drop (cutAt closing x.text) = (b,.body i) :: v := by
    rw [cut,same,List.append_cons]
    exact List.drop_left' (by simp)
  cases found : cutLast? closing x.text with
  | none =>
    rw [drop_cutAt_of_none found] at after
    cases after
  | some p =>
    obtain ⟨before,behind⟩ := p
    obtain ⟨line,rest,_,plain⟩ := drop_cutAt found
    obtain ⟨c,r,rfl,feed,return_⟩ := symbol
    have goesOn : text (x.drop before.length) = c :: (r ++ behind) := by
      rw [text_drop,cutLast?_eq_some found,List.append_assoc,List.drop_left]
      rfl
    obtain ⟨e,tail,shape⟩ := List.exists_cons_of_ne_nil (l := x.drop before.length)
      (fun none_ => by rw [none_] at goesOn; cases goesOn)
    have outer : e.2 ≠ .body i := by
      intro label
      have there : x[before.length]? = some e := by
        rw [← List.head?_drop,shape]
        rfl
      refine lastClose?_ofOutline (c :: r) skeleton i (own.symm.trans ?_)
      unfold lastClose?
      rw [found]
      change some ((x[before.length]?).map Prod.snd) = _
      rw [there,← label]
      rfl
    have behind_ := after.symm.trans rest
    rw [shape] at behind_ goesOn
    have first : (b,.body i) ∈ line := by
      cases line with
      | nil => exact absurd (congrArg Prod.snd (List.cons.inj behind_).1).symm outer
      | cons f line => exact (List.cons.inj behind_).1 ▸ List.mem_cons_self
    refine ⟨line,e,tail,c,_,?_,first,plain,outer,goesOn,feed,return_⟩
    rw [same,behind_]
    simp

/-- The cut parts no body where the last closing symbol comes from the outline. -/
theorem Orderly.not_parted {closing skeleton : Text} (orderly : x.Orderly)
    (symbol : ∃ c r, closing = c :: r ∧ c ≠ '\n' ∧ c ≠ '\r')
    (own : x.lastClose? closing = (ofOutline skeleton).lastClose? closing) :
    ¬ x.Parted (cutAt closing x.text) := by
  rintro ⟨u,a,b,v,i,same,cut⟩
  obtain ⟨line,e,tail,c,s,shape,first,plain,outer,goesOn,feed,return_⟩ :=
    exists_line_of_cut same cut symbol own
  obtain ⟨body,u',v',_,seated⟩ := orderly (a,.body i) (by rw [same]; simp) i rfl
  have member : (a,.body i) ∈ u' ++ of (.body i) body ++ v' := by
    rw [← seated.parts,same]
    simp
  have filled_ : of (.body i) body ≠ [] := by
    intro empty
    rw [empty,List.append_nil] at member
    exact seated.others _ member rfl
  have apart := apart_of_append (seated.parts.symm.trans shape) (fun f inside => mem_of inside)
    (fun f inside => by rw [List.mem_singleton.1 inside]; exact outer) filled_ (List.cons_ne_nil _ _)
  rcases apart with ⟨w,left,right⟩ | ⟨w,_,right⟩
  · have missed (inside : (b,.body i) ∈ w) : False :=
      seated.others (b,.body i) (List.mem_append_right _ (by rw [right]; simp [inside])) rfl
    rcases List.append_eq_append_iff.1 left with ⟨z,long,rfl⟩ | ⟨z,_,short⟩
    · rw [List.append_assoc] at right
      exact seated.not_broken_off filled_ long (fun none_ => missed (by simpa [none_] using first)) right
        (by rwa [← text_append]) goesOn feed return_
    · exact missed (by rw [short]; exact List.mem_append_right _ first)
  · exact seated.others (a,.body i) (List.mem_append_left _ (by rw [right]; simp)) rfl

end Traced

end Recast.Outline
