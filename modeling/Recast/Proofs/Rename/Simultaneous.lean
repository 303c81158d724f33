import Recast.Proofs.Rename.Imports
import Recast.Proofs.Target.Spans

/-! Names that change all at once. What lies between the spans of a code is changed run by run: a run that is
an old name becomes the new one, and nothing else changes, whatever other names there are. -/
namespace Recast
open Text

namespace NameIndex
open Renaming
variable {x : NameIndex}

/-- A file has one new name for a word, if it has any. -/
theorem exists_renamed (x : NameIndex) (source w : Text) :
    ∃ name, ∀ v, (w,v) ∈ x.renamesFor source ↔ v = name ∧ v ≠ w := by
  cases found : x.bySource? source with
  | none =>
    refine ⟨((x.get? w).map Entry.new).getD w,fun v => ?_⟩
    unfold renamesFor
    rw [found]
    exact mem_renames_iff
  | some own => exact ⟨x.meant own w,fun v => mem_renamesFor_iff found⟩

/-- The order in which names are tried does not matter. -/
theorem given_longestFirst (x : NameIndex) (source : Text) :
    given (longestFirst (x.renamesFor source)) = given (x.renamesFor source) := by
  funext w
  obtain ⟨name,known⟩ := x.exists_renamed source w
  have sorted : given (longestFirst (x.renamesFor source)) w = name :=
    given_eq_of_mem_iff fun v => (Ordered.sort_perm _ _).mem_iff.trans (known v)
  rw [sorted,given_eq_of_mem_iff known]

theorem given_of_mem {source w v : Text} (member : (w,v) ∈ x.renamesFor source) :
    given (x.renamesFor source) w = v := by
  obtain ⟨name,known⟩ := x.exists_renamed source w
  rw [given_eq_of_mem_iff known,((known v).1 member).1]

end NameIndex

namespace Renaming

theorem given_of_notMem {renames : List (Text × Text)} {w : Text} (absent : ∀ v, (w,v) ∉ renames) :
    given renames w = w := (given_cases renames w).resolve_right (absent _)

/-- What lies between spans in order is changed, each part by itself. -/
theorem outside_eq (renames : List (Text × Text)) (code : Text) {spans : List Span} (ascending : Ascending spans)
    {place : Nat} (ahead : ∀ s ∈ spans, place ≤ s.1) : outside renames code place spans =
      ((Target.partsFrom code place spans).map (Target.Part.change (substitute renames))).flatten := by
  induction spans generalizing place with
  | nil => simp [outside,Target.partsFrom,Target.Part.change]
  | cons s spans ih =>
    obtain ⟨start,stop⟩ := s
    have later := ih ascending.tail (List.pairwise_cons.1 ascending.apart).1
    have begins : ¬ start < place := Nat.not_lt.2 (ahead (start,stop) (by simp))
    simp only [outside,if_neg begins,Target.partsFrom,List.map_cons,List.flatten_cons,Target.Part.change]
    rw [later,List.append_assoc]

/-- Old names become new ones wherever they are whole runs of name characters. -/
structure Simultaneous (renames : List (Text × Text)) (rename : Text → Text) : Prop where
  nil : rename [] = []
  /-- Other characters stay. -/
  other : ∀ u c v, isNameChar c = false → rename (u ++ c :: v) = rename u ++ c :: rename v
  /-- A run that is an old name becomes the new one. -/
  renamed : ∀ u w v new, (w,new) ∈ renames → Ends u → v.head?.any isNameChar = false →
    rename (u ++ (w ++ v)) = rename u ++ (new ++ rename v)
  /-- Every other run stays, also one that an old name is a part of. -/
  kept : ∀ u w v, IsRun isNameChar isNameChar w → (∀ new, (w,new) ∉ renames) → Ends u →
    v.head?.any isNameChar = false → rename (u ++ (w ++ v)) = rename u ++ (w ++ rename v)
  /-- Names that only change places are back in their places when they change again. -/
  swapped : (∀ old new, (old,new) ∈ renames → (new,old) ∈ renames) → ∀ s, rename (rename s) = s

section
variable {x : NameIndex} (spelled : x.Spelled) (source : Text)
include spelled

theorem isRun_of_mem {r : Text × Text} (member : r ∈ x.renamesFor source) : IsRun isNameChar isNameChar r.1 :=
  spelled.named source r ((Ordered.sort_perm _ _).mem_iff.2 member)

theorem changesRuns_given : ChangesRuns isNameChar isNameChar (given (x.renamesFor source))
    (mapRuns isNameChar (given (x.renamesFor source))) := by
  refine changesRuns_mapRuns fun c plain => (given_cases _ [c]).resolve_right fun member => ?_
  have word := (isRun_of_mem spelled source member).all c (by simp)
  exact Bool.false_ne_true (plain.symm.trans word)

/-- The search for names, longer ones first, finds the runs that are names. -/
theorem substitute_eq_mapRuns :
    substitute (longestFirst (x.renamesFor source)) = mapRuns isNameChar (given (x.renamesFor source)) := by
  have changes := changesRuns_substitute (spelled.named source)
  rw [x.given_longestFirst] at changes
  exact funext (changes.congr (changesRuns_given spelled source) fun w _ => rfl)

theorem simultaneous_mapRuns :
    Simultaneous (x.renamesFor source) (mapRuns isNameChar (given (x.renamesFor source))) := by
  have changes := changesRuns_given spelled source
  refine ⟨changes.nil,fun u c v plain => ?_,fun u w v new member ends ended => ?_,
    fun u w v run absent ends ended => ?_,fun swaps s => changes.cancel (fun w run => ?_) s⟩
  · rw [changes.append u (by simpa using plain),changes.other c v plain]
  · rw [changes.between ends (isRun_of_mem spelled source member) ended,NameIndex.given_of_mem member]
  · rw [changes.between ends run ended,given_of_notMem absent]
  · rcases given_cases (x.renamesFor source) w with same | member
    · rw [same]
      exact ⟨run,same⟩
    · have back := swaps _ _ member
      exact ⟨isRun_of_mem spelled source back,NameIndex.given_of_mem back⟩

theorem identifiers_eq {target : Target} {code : Text} {spans : List Span} (found : target.spans code = some spans)
    (ascending : Ascending spans) : identifiers target x source code = some (((Target.parts code spans).map
      (Target.Part.change (mapRuns isNameChar (given (x.renamesFor source))))).flatten) := by
  have whole := outside_eq (longestFirst (x.renamesFor source)) code ascending fun s _ => Nat.zero_le s.1
  rw [substitute_eq_mapRuns spelled] at whole
  unfold identifiers
  dsimp only
  split
  · -- Without any renames all runs stay, and with them the whole code.
    rename_i none_
    have same : mapRuns isNameChar (given (x.renamesFor source)) = id := by
      rw [← substitute_eq_mapRuns spelled,List.isEmpty_iff.1 none_]
      exact funext substitute_nil
    have kept : Target.Part.change id = Target.Part.text := by
      funext part
      cases part <;> rfl
    rw [same,kept,Target.flatten_parts ascending]
  · rw [found,Option.map_some,whole]
    rfl

end

/-- In a code with spans in order the spans stay, and old names become new ones all at once in each part
between them. The spans that a project's target language tells are in order if those of its parser are. -/
theorem identifiers_simultaneous (target : Target) {x : NameIndex} (spelled : x.Spelled) (source : Text)
    {code : Text} {spans : List Span} (found : target.spans code = some spans) (ascending : Ascending spans) :
    let renames := x.renamesFor source
    let rename := mapRuns isNameChar (given renames)
    let parts := Target.parts code spans
    Simultaneous renames rename ∧
    (parts.map Target.Part.text).flatten = code ∧
    identifiers target x source code = some (parts.map (Target.Part.change rename)).flatten ∧
    ∀ (r : Registry) (parsers : Parsers) (language : Text) (settings : Option LanguageSettings),
      parsers.Orderly code → ∀ told, (r.target parsers language settings).spans code = some told →
        Ascending told := by
  intro renames rename parts
  exact ⟨simultaneous_mapRuns spelled source,Target.flatten_parts ascending code,
    identifiers_eq spelled source found ascending,
    fun r parsers language settings orderly told => r.ascending_spans language settings orderly⟩

/-- Two names change places, and names that they begin, end or hold do not stand in the way; a file means its own
type by a name that another type has too. The parser tells the first import last, and counts an `é` twice. -/
theorem identifiers_simultaneous_swapped :
    let e (old new source : Text) : Registered := ⟨⟨old,new,[],source,new ++ ".py"⟩,[]⟩
    let x : NameIndex :=
      ⟨[e "Al" "Alp" "a.src",e "Al" "Alo" "b.src",e "Alpha" "Beta" "c.src",e "Beta" "Alpha" "d.src"],true⟩
    let code : Text := "def f(é): from shop import Alpha; return Alpha(Beta,Al,Alphabet)\n" ++
      "import shop.Alpha, Beta\nBeta(Alpha,my_Beta,Al)\n"
    let renamed : Text := "def f(é): from shop import Alpha; return Beta(Alpha,Alo,Alphabet)\n" ++
      "import shop.Alpha, Beta\nAlpha(Beta,my_Beta,Alo)\n"
    let outline : ModuleOutline := ⟨[.other,.other,.other],[⟨2,0,2,23,none⟩,⟨1,11,1,33,none⟩]⟩
    let parsers : Parsers := ⟨⟨fun _ => none,fun _ => some outline⟩,fun _ => default⟩
    let target : Target := Registry.standard.target parsers "python" none
    let renames : List (Text × Text) := [("Al","Alo"),("Alpha","Beta"),("Beta","Alpha")]
    ∃ spans, x.Spelled ∧ parsers.Orderly code ∧ target.spans code = some spans ∧ Ascending spans ∧
      x.renamesFor "b.src" = renames ∧ Simultaneous renames (mapRuns isNameChar (given renames)) ∧
      identifiers target x "b.src" code = some renamed := by
  intro e x code renamed outline parsers target renames
  have named : x.all.all (fun e => !e.old.isEmpty && e.old.all isNameChar) = true := by decide +kernel
  have spelled : x.Spelled := fun e inside => by simpa using List.all_eq_true.1 named e inside
  have orderly : parsers.Orderly code := by
    refine ⟨fun o told => ?_,⟨(fun d inside => by cases inside),.nil⟩⟩
    cases told
    refine ⟨fun i inside => ?_,List.pairwise_pair.2 (.inr (.inl (by decide)))⟩
    rcases List.mem_pair.1 inside with rfl | rfl
    · exact ⟨by decide,.inr ⟨rfl,by decide⟩⟩
    · exact ⟨by decide,.inr ⟨rfl,by decide⟩⟩
  have found : target.spans code = some [(10,32),(65,88)] := by decide +kernel
  have told : x.renamesFor "b.src" = renames := by decide +kernel
  obtain ⟨simultaneous,_,answer,inOrder⟩ :=
    identifiers_simultaneous target spelled "b.src" found ⟨by decide,by decide⟩
  rw [told] at simultaneous answer
  have made : ((Target.parts code [(10,32),(65,88)]).map
      (Target.Part.change (mapRuns isNameChar (given renames)))).flatten = renamed := by decide +kernel
  exact ⟨_,spelled,orderly,found,inOrder Registry.standard parsers "python" none orderly _ found,told,simultaneous,
    answer.trans (congrArg some made)⟩

end Renaming

end Recast
