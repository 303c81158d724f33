import Recast.Proofs.Progress.Table
import Recast.Proofs.Settings.Service
import Recast.Settings.Load

/-! The order of the entries of a settings file. An entry beside the sections lands on a field of one
section, and for the most part under its own name, so that no other one lands there. The service has fields
with several names, of which the first that says something counts; there the order matters when they say
different things. -/
namespace Recast

namespace Value
variable {es fs : List (Text × Value)}

theorem lookup?_insertNew (es : List (Text × Value)) (name : Text) (v : Value) (other : Text) :
    lookup? (insertNew es name v) other =
      (lookup? es other).or (if name = other then some v else none) := by
  unfold insertNew
  rw [any_name_eq]
  split
  · rename_i inside
    split
    · rename_i same
      obtain ⟨w,inside⟩ := Option.isSome_iff_exists.1 inside
      rw [← same,inside]
      rfl
    · rw [Option.or_none]
  · rw [lookup?_append,lookup?_cons]
    rfl

theorem lookup?_perm (same : es.Perm fs) (distinct : (es.map Prod.fst).Nodup) (name : Text) :
    lookup? es name = lookup? fs name := Table.get?_perm same distinct name

end Value

namespace Sections

/-- The sections of the settings. -/
inductive Part where
  | project
  | language
  | service
  | run
  deriving DecidableEq

def part (s : Sections) : Part → List (Text × Value)
  | .project => s.project
  | .language => s.language
  | .service => s.service
  | .run => s.run

/-- A value under an older name, as it is read for the field. -/
def read (field : Text) (v : Value) : Value :=
  if field = "api_url".toList && v.truthy then .text (baseUrl v.display) else v

/-- The section, the field and the value that an entry beside the sections stands for. -/
def landing? (e : Text × Value) : Option (Part × Text × Value) :=
  if sectionNames.contains e.1 then none
  else if LanguageSettings.names.contains e.1 then some (.language,e)
  else if RunSettings.names.contains e.1 then some (.run,e)
  else if ProjectSettings.names.contains e.1 then some (.project,e)
  else match currentName? e.1 with
    | some current =>
      if isUnset (read current e.2) then none else some (.service,current,read current e.2)
    | none => if ServiceSettings.names.contains e.1 then some (.service,e) else none

/-- What an entry says of a field. -/
def says? (p : Part) (field : Text) (e : Text × Value) : Option Value :=
  (landing? e).bind fun l => if l.1 = p ∧ l.2.1 = field then some l.2.2 else none

variable {es fs : List (Text × Value)} {s t : Sections} {p : Part} {field : Text}

/-- Puts a value into a field that has none yet. -/
def put (s : Sections) (p : Part) (name : Text) (v : Value) : Sections :=
  match p with
  | .project => { s with project := Value.insertNew s.project name v }
  | .language => { s with language := Value.insertNew s.language name v }
  | .service => { s with service := Value.insertNew s.service name v }
  | .run => { s with run := Value.insertNew s.run name v }

theorem lookup?_put (s : Sections) (q : Part) (name : Text) (v : Value) :
    Value.lookup? ((s.put q name v).part p) field =
      (Value.lookup? (s.part p) field).or (if q = p ∧ name = field then some v else none) := by
  cases q <;> cases p <;> simp [put,part,Value.lookup?_insertNew]

theorem place_eq (s : Sections) (e : Text × Value) :
    place s e = (landing? e).elim s fun l => s.put l.1 l.2.1 l.2.2 := by
  unfold place landing?
  dsimp only
  split
  · rfl
  split
  · rfl
  split
  · rfl
  split
  · rfl
  cases currentName? e.1 with
  | some current =>
    change (if isUnset (read current e.2) = true then s
      else s.put .service current (read current e.2)) = _
    dsimp only
    split
    · rfl
    · rfl
  | none =>
    dsimp only
    split
    · rfl
    · rfl

theorem lookup?_place (s : Sections) (e : Text × Value) :
    Value.lookup? ((place s e).part p) field = (Value.lookup? (s.part p) field).or (says? p field e) := by
  rw [place_eq]
  unfold says?
  cases landing? e with
  | none => simp
  | some l =>
    rw [Option.elim_some,lookup?_put]
    rfl

/-- Each field has what its section says of it, and otherwise what the first entry says that lands on it. -/
theorem lookup?_foldl (s : Sections) (es : List (Text × Value)) :
    Value.lookup? ((es.foldl place s).part p) field =
      (Value.lookup? (s.part p) field).or (es.findSome? (says? p field)) := by
  induction es generalizing s with
  | nil => simp
  | cons e es ih =>
    rw [List.foldl_cons,ih,lookup?_place,List.findSome?_cons,Option.or_assoc]
    cases says? p field e <;> rfl

theorem says?_eq_some {e : Text × Value} {v : Value} :
    says? p field e = some v ↔ landing? e = some (p,field,v) := by
  unfold says?
  cases landing? e with
  | none => simp
  | some l =>
    obtain ⟨q,name,w⟩ := l
    simp [and_assoc]

/-- Only the service has fields that go by several names. -/
theorem name_of_says? {e : Text × Value} {v : Value} (said : says? p field e = some v)
    (other : p ≠ .service) : e.1 = field := by
  have found := says?_eq_some.1 said
  unfold landing? at found
  split at found
  · cases found
  split at found
  · cases found
    rfl
  split at found
  · cases found
    rfl
  split at found
  · cases found
    rfl
  cases current : currentName? e.1 with
  | some name =>
    rw [current] at found
    dsimp only at found
    split at found
    · cases found
    · cases found
      exact absurd rfl other
  | none =>
    rw [current] at found
    dsimp only at found
    split at found
    · cases found
      rfl
    · cases found

theorem findSome?_perm {α β : Type} {f : α → Option β} {xs ys : List α} (same : xs.Perm ys)
    (agree : ∀ x ∈ xs, ∀ y ∈ xs, ∀ a b, f x = some a → f y = some b → a = b) :
    xs.findSome? f = ys.findSome? f := by
  have found {zs : List α} {a : β} (here : zs.findSome? f = some a) : ∃ z ∈ zs, f z = some a :=
    List.exists_of_findSome?_eq_some here
  cases left : xs.findSome? f with
  | none =>
    have silent := List.findSome?_eq_none_iff.1 left
    exact (List.findSome?_eq_none_iff.2 fun y member => silent y (same.mem_iff.2 member)).symm
  | some a =>
    obtain ⟨x,inside,said⟩ := found left
    cases right : ys.findSome? f with
    | none =>
      rw [List.findSome?_eq_none_iff.1 right x (same.mem_iff.1 inside)] at said
      cases said
    | some b =>
      obtain ⟨y,there,told⟩ := found right
      rw [agree x inside y (same.mem_iff.2 there) a b said told]

/-- The fields of the sections that a file names. -/
def named? (es : List (Text × Value)) : Except SectionFault Sections := do
  let section? (name : String) : Except SectionFault (List (Text × Value)) :=
    fields ((Value.lookup? es name.toList).getD .null)
  return ⟨← section? "project",← section? "language",← section? "llm",← section? "translation"⟩

theorem ofEntries_eq (es : List (Text × Value)) :
    ofEntries es = (named? es).map fun s => es.foldl place s := by
  unfold ofEntries named?
  dsimp only
  cases fields ((Value.lookup? es "project".toList).getD .null) with
  | error f => rfl
  | ok project =>
    cases fields ((Value.lookup? es "language".toList).getD .null) with
    | error f => rfl
    | ok language =>
      cases fields ((Value.lookup? es "llm".toList).getD .null) with
      | error f => rfl
      | ok service => cases fields ((Value.lookup? es "translation".toList).getD .null) <;> rfl

theorem named?_perm (same : es.Perm fs) (distinct : (es.map Prod.fst).Nodup) : named? es = named? fs := by
  unfold named?
  simp only [Value.lookup?_perm same distinct]

/-- Sections with the same fields, in any order. -/
def Same (s t : Sections) : Prop :=
  ∀ p field, Value.lookup? (s.part p) field = Value.lookup? (t.part p) field

end Sections

namespace Settings
open Sections
variable {s t : Sections} {es fs : List (Text × Value)}

/-- Each section is read field by field. -/
theorem checks_congr (same : ∀ name, Value.lookup? es name = Value.lookup? fs name) :
    ProjectSettings.check (.dict es) = ProjectSettings.check (.dict fs) ∧
      LanguageSettings.check (.dict es) = LanguageSettings.check (.dict fs) ∧
      ServiceSettings.check (.dict es) = ServiceSettings.check (.dict fs) ∧
      RunSettings.check (.dict es) = RunSettings.check (.dict fs) := by
  have get (name : Text) : (Value.dict es).get? name = (Value.dict fs).get? name := same name
  unfold ProjectSettings.check LanguageSettings.check ServiceSettings.check RunSettings.check
    Check.required Check.field
  simp only [get,and_self]

theorem get?_toValue (s : Sections) :
    s.toValue.get? "project" = some (.dict s.project) ∧ s.toValue.get? "language" = some (.dict s.language) ∧
      s.toValue.get? "llm" = some (.dict s.service) ∧ s.toValue.get? "translation" = some (.dict s.run) := by
  simp [Sections.toValue,Value.record,Value.get?,Value.lookup?_cons]

theorem check_congr (same : s.Same t) : check s.toValue = check t.toValue := by
  obtain ⟨project,language,service,run⟩ := get?_toValue s
  obtain ⟨project_,language_,service_,run_⟩ := get?_toValue t
  unfold check Check.field Check.required
  rw [project,language,service,run,project_,language_,service_,run_]
  dsimp only
  rw [(@checks_congr s.project t.project (same .project)).1,
    (@checks_congr s.language t.language (same .language)).2.1,
    (@checks_congr s.service t.service (same .service)).2.2.1,
    (@checks_congr s.run t.run (same .run)).2.2.2]

theorem ofSections_congr (env : Environment) (same : s.Same t) : ofSections env s = ofSections env t := by
  have unset : firstUnset? s.language = firstUnset? t.language := by
    have language (name : Text) : Value.lookup? s.language name = Value.lookup? t.language name :=
      same .language name
    unfold firstUnset?
    simp only [language]
  unfold ofSections requireLanguage
  rw [unset,check_congr same]

end Settings

namespace Sections
variable {es fs : List (Text × Value)} {s t named : Sections} {p : Part} {field : Text}

/-- Where the section of the service says nothing of a field, what the entries beside it say of the field is
always the same. -/
def Undisputed (es : List (Text × Value)) : Prop :=
  ∀ named field, named? es = .ok named → Value.lookup? named.service field = none →
    ∀ e ∈ es, ∀ d ∈ es, ∀ v w, says? .service field e = some v → says? .service field d = some w → v = w

theorem ofEntries_eq_ok :
    ofEntries es = .ok s ↔ ∃ named, named? es = .ok named ∧ es.foldl place named = s := by
  rw [ofEntries_eq]
  cases named? es with
  | ok named => simp [Except.map]
  | error f => simp [Except.map]

theorem ofEntries_eq_error {f : SectionFault} : ofEntries es = .error f ↔ named? es = .error f := by
  rw [ofEntries_eq]
  cases named? es with
  | ok named => simp [Except.map]
  | error f => simp [Except.map]

/-- Nothing else than the entries that are in dispute depends on the order. -/
theorem lookup?_foldl_perm (same : es.Perm fs) (distinct : (es.map Prod.fst).Nodup)
    (named : named? es = .ok s) (agreed : p = .service → Undisputed es) :
    Value.lookup? ((es.foldl place s).part p) field = Value.lookup? ((fs.foldl place s).part p) field := by
  rw [lookup?_foldl,lookup?_foldl]
  cases held : Value.lookup? (s.part p) field with
  | some v => rfl
  | none =>
    rw [Option.none_or,Option.none_or]
    refine findSome?_perm same fun e inside d there v w said told => ?_
    by_cases service : p = .service
    · subst service
      exact agreed rfl s field named held e inside d there v w said told
    · have one : e = d := List.inj_on_of_nodup_map distinct inside there
        ((name_of_says? said service).trans (name_of_says? told service).symm)
      subst one
      exact Option.some.inj (said.symm.trans told)

/-- Entries in dispute make a difference: each of them can be the first. -/
theorem undisputed_of_same (distinct : (es.map Prod.fst).Nodup)
    (all : ∀ fs s t, es.Perm fs → ofEntries es = .ok s → ofEntries fs = .ok t → s.Same t) :
    Undisputed es := by
  intro named field begun silent e inside d there v w said told
  have first {e : Text × Value} {v : Value} (inside : e ∈ es) (said : says? .service field e = some v) :
      Value.lookup? ((es.foldl place named).part .service) field = some v := by
    obtain ⟨before,after,parts⟩ := List.append_of_mem inside
    have perm : es.Perm (e :: (before ++ after)) := parts ▸ List.perm_middle
    rw [all _ _ _ perm (ofEntries_eq_ok.2 ⟨named,begun,rfl⟩)
      (ofEntries_eq_ok.2 ⟨named,(named?_perm perm distinct).symm.trans begun,rfl⟩) .service field,
      lookup?_foldl]
    change (Value.lookup? named.service field).or _ = _
    rw [silent,Option.none_or,List.findSome?_cons,said]
  exact Option.some.inj ((first inside said).symm.trans (first there told))

end Sections

namespace Settings
open Sections

/-- Whatever the order of the entries of a settings file, a section that cannot be read is found alike, the
sections of the project, of the language and of a run have the same fields, and a field of the service has
what its section says of it, or else what the first of the entries says that land on it. The section of the
service is the same for every order exactly if no entries are in dispute, and then so are the settings, or
what is wrong with them. -/
theorem ofValue_perm (env : Environment) {es : List (Text × Value)} (distinct : (es.map Prod.fst).Nodup) :
    (∀ fs f, es.Perm fs → (ofEntries es = .error f ↔ ofEntries fs = .error f)) ∧
    (∀ s, ofEntries es = .ok s → ∃ named, named? es = .ok named ∧ ∀ p field,
      Value.lookup? (s.part p) field =
        (Value.lookup? (named.part p) field).or (es.findSome? (says? p field))) ∧
    (∀ fs s t, es.Perm fs → ofEntries es = .ok s → ofEntries fs = .ok t → ∀ p field, p ≠ .service →
      Value.lookup? (s.part p) field = Value.lookup? (t.part p) field) ∧
    ((∀ fs s t, es.Perm fs → ofEntries es = .ok s → ofEntries fs = .ok t → s.Same t) ↔ Undisputed es) ∧
    (Undisputed es → ∀ fs, es.Perm fs → ofValue env (.dict es) = ofValue env (.dict fs) ∧
      ∀ a b, Yaml.read (Text.plainFeeds a) = .ok (.dict es) → Yaml.read (Text.plainFeeds b) = .ok (.dict fs) →
        ofText env a = ofText env b) := by
  have fields {fs : List (Text × Value)} {s t : Sections} {p : Part} (perm : es.Perm fs)
      (left : ofEntries es = .ok s) (right : ofEntries fs = .ok t) (agreed : p = .service → Undisputed es)
      (field : Text) : Value.lookup? (s.part p) field = Value.lookup? (t.part p) field := by
    obtain ⟨named,begun,rfl⟩ := ofEntries_eq_ok.1 left
    obtain ⟨other,same,rfl⟩ := ofEntries_eq_ok.1 right
    rw [← named?_perm perm distinct,begun] at same
    cases same
    exact lookup?_foldl_perm perm distinct begun agreed
  have failing (fs : List (Text × Value)) (f : SectionFault) (perm : es.Perm fs) :
      ofEntries es = .error f ↔ ofEntries fs = .error f := by
    rw [ofEntries_eq_error,ofEntries_eq_error,named?_perm perm distinct]
  refine ⟨failing,fun s read => ?_,fun fs s t perm left right p field other =>
    fields perm left right (fun service => absurd service other) field,
    ⟨undisputed_of_same distinct,fun agreed fs s t perm left right p field =>
      fields perm left right (fun _ => agreed) field⟩,fun agreed fs perm => ?_⟩
  · obtain ⟨named,begun,rfl⟩ := ofEntries_eq_ok.1 read
    exact ⟨named,begun,fun p field => lookup?_foldl named es⟩
  · have whole : ofValue env (.dict es) = ofValue env (.dict fs) := by
      unfold ofValue
      dsimp only
      cases left : ofEntries es with
      | error f => rw [(failing fs f perm).1 left]
      | ok s =>
        cases right : ofEntries fs with
        | error f => rw [(failing fs f perm).2 right] at left; cases left
        | ok t => exact ofSections_congr env fun p field => fields perm left right (fun _ => agreed) field
    refine ⟨whole,fun a b first second => ?_⟩
    unfold ofText
    rw [first,second]
    exact whole

/-- A settings file for some language, with more entries behind those of the language. -/
def plainWith (more : List (Text × Value)) : List (Text × Value) :=
  ("target_language",.text "plain") :: ("input_extension",.text ".src") ::
    ("output_extension",.text ".out") :: ("prompt",.text "Go.") :: more

/-- A provider and a model of it in both orders. -/
theorem ofValue_perm_claude :
    let model : Text × Value := ("claude_model",.text "sonnet")
    let provider : Text × Value := ("ai_service",.text "claude")
    let es := plainWith [model,provider]
    let fs := plainWith [provider,model]
    (es.map Prod.fst).Nodup ∧ es.Perm fs ∧ Undisputed es ∧
      ofValue [] (.dict es) = ofValue [] (.dict fs) := by
  intro model provider es fs
  have distinct : (es.map Prod.fst).Nodup := by decide +kernel
  have perm : es.Perm fs := (List.Perm.swap _ _ []).append_left (plainWith [])
  have lands : ∀ e ∈ es, landing? e = some (Part.service,("model" : Text),model.2) ∨
      landing? e = some (Part.service,("provider" : Text),provider.2) ∨
      landing? e = some (Part.language,e) := by
    intro e member
    simp only [es,plainWith,List.mem_cons,List.not_mem_nil,or_false] at member
    rcases member with rfl | rfl | rfl | rfl | rfl | rfl
    · exact .inr (.inr rfl)
    · exact .inr (.inr rfl)
    · exact .inr (.inr rfl)
    · exact .inr (.inr rfl)
    · exact .inl rfl
    · exact .inr (.inl rfl)
  have told {e : Text × Value} {field : Text} {v : Value} (member : e ∈ es)
      (said : says? .service field e = some v) :
      v = if field = "model".toList then model.2 else provider.2 := by
    have landed := says?_eq_some.1 said
    rcases lands e member with same | same | same
    · rw [same] at landed
      cases landed
      rfl
    · rw [same] at landed
      cases landed
      rfl
    · rw [same] at landed
      cases landed
  have agreed : Undisputed es := fun _ _ _ _ _ inside _ there _ _ said again =>
    (told inside said).trans (told there again).symm
  exact ⟨distinct,perm,agreed,((ofValue_perm [] distinct).2.2.2.2 agreed fs perm).1⟩

/-- Two names of one field with different values: the first one is the model. -/
theorem ofValue_disputed :
    let openai : Text × Value := ("openai_model",.text "gpt-4")
    let claude : Text × Value := ("claude_model",.text "sonnet")
    let es := plainWith [openai,claude]
    let fs := plainWith [claude,openai]
    (es.map Prod.fst).Nodup ∧ es.Perm fs ∧ ∃ s t, ofValue [] (.dict es) = .ok s ∧
      ofValue [] (.dict fs) = .ok t ∧ s.service.model = "gpt-4" ∧ t.service.model = "sonnet" := by
  intro openai claude es fs
  have model (gs : List (Text × Value)) (name : Text) (ran : (match ofValue [] (.dict gs) with
      | .ok s => decide (s.service.model = name)
      | .error _ => false) = true) : ∃ s, ofValue [] (.dict gs) = .ok s ∧ s.service.model = name := by
    cases same : ofValue [] (.dict gs) with
    | ok s =>
      rw [same] at ran
      exact ⟨s,rfl,of_decide_eq_true ran⟩
    | error e =>
      rw [same] at ran
      cases ran
  obtain ⟨s,left,first⟩ := model es "gpt-4" (by decide +kernel)
  obtain ⟨t,right,second⟩ := model fs "sonnet" (by decide +kernel)
  exact ⟨by decide +kernel,(List.Perm.swap _ _ []).append_left (plainWith []),s,t,left,right,first,second⟩

end Settings

end Recast
