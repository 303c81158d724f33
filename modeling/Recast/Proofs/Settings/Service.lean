import Recast.Settings.Check
import Recast.Settings.Record

/-! The settings of a service, read from a record. Reading them is reading each field, and what was
read and written down again is read as before. -/
namespace Recast

namespace Value
variable {es : List (Text × Value)} {name other : Text} {v : Value}

theorem lookup?_cons (e : Text × Value) :
    lookup? (e :: es) name = if e.1 = name then some e.2 else lookup? es name := by
  unfold lookup?
  rw [List.find?_cons]
  by_cases here : e.1 = name
  · simp [here]
  · have apart : (e.1 == name) = false := by simpa using here
    rw [apart,if_neg here]

theorem lookup?_append (fs : List (Text × Value)) :
    lookup? (es ++ fs) name = (lookup? es name).or (lookup? fs name) := by
  unfold lookup?
  rw [List.find?_append]
  cases es.find? fun e => e.1 == name with
  | none => rfl
  | some e => rfl

theorem any_name_eq (es : List (Text × Value)) (name : Text) :
    (es.any fun e => e.1 == name) = (lookup? es name).isSome := by
  unfold lookup?
  rw [Option.isSome_map,Bool.eq_iff_iff,List.find?_isSome]
  exact List.any_eq_true

theorem lookup?_put (es : List (Text × Value)) (name : Text) (v : Value) :
    lookup? (es.map fun e => if e.1 == name then (name,v) else e) other =
      if other = name then (lookup? es name).map fun _ => v else lookup? es other := by
  induction es with
  | nil => simp [lookup?]
  | cons e rest ih =>
    rw [List.map_cons,lookup?_cons,lookup?_cons,lookup?_cons,ih]
    by_cases here : e.1 = name
    · by_cases same : other = name
      · simp [here,same]
      · simp [here,same,Ne.symm same]
    · by_cases same : other = name
      · simp [here,same]
      · simp [here,same]

/-- What was put in is found under its name, and everything else as before. -/
theorem lookup?_insert (es : List (Text × Value)) (name : Text) (v : Value) (other : Text) :
    lookup? (insert es name v) other = if other = name then some v else lookup? es other := by
  unfold insert
  rw [any_name_eq]
  split
  · rename_i inside
    obtain ⟨w,inside⟩ := Option.isSome_iff_exists.1 inside
    rw [lookup?_put,inside]
    rfl
  · rename_i missing
    rw [lookup?_append]
    by_cases same : other = name
    · subst same
      rw [Option.not_isSome_iff_eq_none.1 missing,if_pos rfl]
      simp [lookup?]
    · have apart : (name == other) = false := by simpa using Ne.symm same
      rw [if_neg same]
      simp [lookup?,apart]

end Value

namespace Checked
variable {α β : Type}

theorem map_eq_ok {f : α → β} {a : Checked α} {b : β} :
    f <$> a = .ok b ↔ ∃ x, a = .ok x ∧ f x = b := by
  cases a with
  | ok a => exact ⟨fun h => ⟨a,rfl,by injection h⟩,by rintro ⟨_,⟨⟩,rfl⟩; rfl⟩
  | faults fs => exact ⟨fun h => (nomatch h),by rintro ⟨_,⟨⟩,_⟩⟩

theorem seq_eq_ok {f : Checked (α → β)} {a : Checked α} {b : β} :
    f <*> a = .ok b ↔ ∃ g x, f = .ok g ∧ a = .ok x ∧ g x = b := by
  cases f with
  | ok g => cases a with
    | ok a => exact ⟨fun h => ⟨g,a,rfl,rfl,by injection h⟩,by rintro ⟨_,_,⟨⟩,⟨⟩,rfl⟩; rfl⟩
    | faults fs => exact ⟨fun h => (nomatch h),by rintro ⟨_,_,_,⟨⟩,_⟩⟩
  | faults fs => cases a with
    | ok a => exact ⟨fun h => (nomatch h),by rintro ⟨_,_,⟨⟩,_⟩⟩
    | faults gs => exact ⟨fun h => (nomatch h),by rintro ⟨_,_,⟨⟩,_⟩⟩

theorem inside_eq_ok {step : Step} {a : Checked α} {b : α} : a.inside step = .ok b ↔ a = .ok b := by
  cases a with
  | ok a => rfl
  | faults fs => exact ⟨fun h => (nomatch h),fun h => (nomatch h)⟩

theorem andThen_eq_ok {f : α → Checked β} {a : Checked α} {b : β} :
    a.andThen f = .ok b ↔ ∃ x, a = .ok x ∧ f x = .ok b := by
  cases a with
  | ok a => exact ⟨fun h => ⟨a,rfl,h⟩,by rintro ⟨_,⟨⟩,h⟩; exact h⟩
  | faults fs => exact ⟨fun h => (nomatch h),by rintro ⟨_,⟨⟩,_⟩⟩

end Checked

namespace Check
variable {α : Type}

/-- What a field stands for: its value if it is there, and otherwise what it is without one. -/
theorem field_eq_ok {name : Text} {default a : α} {check : Check α} {v : Value} :
    field name default check v = .ok a ↔
      (v.get? name).elim (.ok default) check = .ok a := by
  unfold field
  cases v.get? name with
  | some w => exact Checked.inside_eq_ok
  | none => rfl

end Check

namespace ServiceSettings
open Check

/-- The settings are read from a value, each field from its own. -/
structure Read (v : Value) (s : ServiceSettings) : Prop where
  provider : field "provider" standard.provider (choiceOf Provider.ofName?) v = .ok s.provider
  host : field "host" standard.host text v = .ok s.host
  key : field "api_key" none (optional text) v = .ok s.key
  url : field "api_url" none (optional text) v = .ok s.url
  model : field "model" standard.model text v = .ok s.model
  temperature : field "temperature" standard.temperature (numberWithin 0 (some 2)) v = .ok s.temperature
  timeout : field "timeout" standard.timeout whole v = .ok s.timeout
  maxTokens : field "max_tokens" standard.maxTokens positive v = .ok s.maxTokens

theorem check_eq_ok {v : Value} {s : ServiceSettings} : check v = .ok s ↔ Read v s := by
  unfold check
  simp only [Checked.seq_eq_ok,Checked.map_eq_ok]
  constructor
  · rintro ⟨_,_,⟨_,_,⟨_,_,⟨_,_,⟨_,_,⟨_,_,⟨_,_,⟨_,provider,rfl⟩,host,rfl⟩,key,rfl⟩,url,rfl⟩,model,rfl⟩,
      temperature,rfl⟩,timeout,rfl⟩,maxTokens,rfl⟩
    exact ⟨provider,host,key,url,model,temperature,timeout,maxTokens⟩
  · rintro ⟨provider,host,key,url,model,temperature,timeout,maxTokens⟩
    exact ⟨_,_,⟨_,_,⟨_,_,⟨_,_,⟨_,_,⟨_,_,⟨_,_,⟨_,provider,rfl⟩,host,rfl⟩,key,rfl⟩,url,rfl⟩,model,rfl⟩,
      temperature,rfl⟩,timeout,rfl⟩,maxTokens,rfl⟩

/-- What the settings of a service keep to. -/
structure Sound (s : ServiceSettings) : Prop where
  temperature : numberWithin 0 (some 2) (.float s.temperature) = .ok s.temperature
  maxTokens : 0 < s.maxTokens

theorem numberWithin_again {low : Nat} {high : Option Nat} {v : Value} {x : Float}
    (within : numberWithin low high v = .ok x) : numberWithin low high (.float x) = .ok x := by
  obtain ⟨y,_,bounded⟩ := Checked.andThen_eq_ok.1 within
  have same : y = x := by
    unfold numberWithin.lower at bounded
    split at bounded
    · split at bounded
      · split at bounded
        · injection bounded
        · cases bounded
      · cases bounded
    · split at bounded
      · injection bounded
      · cases bounded
  rw [same] at bounded
  exact Checked.andThen_eq_ok.2 ⟨x,rfl,bounded⟩

theorem positive_pos {v : Value} {n : Nat} (read : positive v = .ok n) : 0 < n := by
  obtain ⟨m,_,bounded⟩ := Checked.andThen_eq_ok.1 read
  split at bounded
  · injection bounded with bounded
    omega
  · cases bounded

variable {v : Value} {es : List (Text × Value)} {s : ServiceSettings}

theorem Read.sound (read : Read v s) : s.Sound where
  temperature := by
    have given := field_eq_ok.1 read.temperature
    cases there : v.get? "temperature" with
    | none =>
      rw [there] at given
      injection given with given
      rw [← given]
      rfl
    | some w =>
      rw [there] at given
      exact numberWithin_again given
  maxTokens := by
    have given := field_eq_ok.1 read.maxTokens
    cases there : v.get? "max_tokens" with
    | none =>
      rw [there] at given
      injection given with given
      rw [← given]
      decide
    | some w =>
      rw [there] at given
      exact positive_pos given

theorem optional_text (key : Option Text) : optional text (.optional .text key) = .ok key := by
  cases key with
  | none => rfl
  | some key => rfl

theorem choiceOf_name (p : Provider) : choiceOf Provider.ofName? (.text p.name) = .ok p := by
  cases p with
  | openai => rfl
  | openrouter => rfl
  | ollama => rfl
  | claude => rfl
  | custom => rfl

theorem get?_toValue (s : ServiceSettings) :
    s.toValue.get? "provider" = some (.text s.provider.name) ∧ s.toValue.get? "host" = some (.text s.host) ∧
      s.toValue.get? "api_key" = some (.optional .text s.key) ∧
      s.toValue.get? "api_url" = some (.optional .text s.url) ∧
      s.toValue.get? "model" = some (.text s.model) ∧
      s.toValue.get? "temperature" = some (.float s.temperature) ∧
      s.toValue.get? "timeout" = some (.int s.timeout) ∧
      s.toValue.get? "max_tokens" = some (.int s.maxTokens) := by
  simp [toValue,Value.record,Value.get?,Value.lookup?_cons]

theorem field_of_get? {α : Type} {name : Text} {default a : α} {check : Check α} {w : Value}
    (there : v.get? name = some w) (fine : check w = .ok a) : field name default check v = .ok a := by
  rw [field_eq_ok,there]
  exact fine

/-- Settings that are written down are read back. -/
theorem Sound.read_toValue (sound : s.Sound) : Read s.toValue s := by
  obtain ⟨provider,host,key,url,model,temperature,timeout,maxTokens⟩ := get?_toValue s
  have counted : positive (.int s.maxTokens) = .ok s.maxTokens :=
    if_pos (Int.natCast_pos.2 sound.maxTokens)
  exact ⟨field_of_get? provider (choiceOf_name s.provider),field_of_get? host rfl,
    field_of_get? key (optional_text s.key),field_of_get? url (optional_text s.url),
    field_of_get? model rfl,field_of_get? temperature sound.temperature,field_of_get? timeout rfl,
    field_of_get? maxTokens counted⟩

theorem field_insert {α : Type} {name : Text} {default a : α} {check : Check α} {w : Value}
    (fine : check w = .ok a) : field name default check (.dict (Value.insert es name w)) = .ok a := by
  refine field_of_get? ?_ fine
  unfold Value.get?
  dsimp only
  rw [Value.lookup?_insert,if_pos rfl]

theorem field_insert_of_ne {α : Type} {name other : Text} {default a : α} {check : Check α} {w : Value}
    (apart : name ≠ other) (read : field name default check (.dict es) = .ok a) :
    field name default check (.dict (Value.insert es other w)) = .ok a := by
  rw [field_eq_ok] at read ⊢
  unfold Value.get? at read ⊢
  dsimp only at read ⊢
  rwa [Value.lookup?_insert,if_neg apart]

/-- Another provider is put in. -/
theorem Read.put_provider (read : Read (.dict es) s) (p : Provider) :
    Read (.dict (Value.insert es "provider" (.text p.name))) { s with provider := p } where
  provider := field_insert (choiceOf_name p)
  host := field_insert_of_ne (by decide) read.host
  key := field_insert_of_ne (by decide) read.key
  url := field_insert_of_ne (by decide) read.url
  model := field_insert_of_ne (by decide) read.model
  temperature := field_insert_of_ne (by decide) read.temperature
  timeout := field_insert_of_ne (by decide) read.timeout
  maxTokens := field_insert_of_ne (by decide) read.maxTokens

theorem Read.put_model (read : Read (.dict es) s) (model : Text) :
    Read (.dict (Value.insert es "model" (.text model))) { s with model := model } where
  provider := field_insert_of_ne (by decide) read.provider
  host := field_insert_of_ne (by decide) read.host
  key := field_insert_of_ne (by decide) read.key
  url := field_insert_of_ne (by decide) read.url
  model := field_insert rfl
  temperature := field_insert_of_ne (by decide) read.temperature
  timeout := field_insert_of_ne (by decide) read.timeout
  maxTokens := field_insert_of_ne (by decide) read.maxTokens

end ServiceSettings

end Recast
