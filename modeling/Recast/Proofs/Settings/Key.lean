import Recast.Proofs.Run.Steps
import Recast.Proofs.Settings.Service
import Recast.Shell.Perform

/-! Which key goes to which provider. A settings file without a key gets one when it is read, for the
provider that it names itself, and that key stays where the arguments of a command name another
provider. -/
namespace Recast

namespace Provider

/-- The key that the environment holds for a provider. -/
def ownKey? (p : Provider) (env : Environment) : Option Text :=
  (p.keyVariable?.bind fun name => env.lookup name).filter fun key => !key.isEmpty

/-- Two environments have the same in the variable of a provider. -/
def AgreeOn (p : Provider) (env other : Environment) : Prop :=
  ∀ name, p.keyVariable? = some name → env.lookup name = other.lookup name

variable {p q : Provider} {env other : Environment}

theorem AgreeOn.ownKey?_eq (agree : p.AgreeOn env other) : p.ownKey? env = p.ownKey? other := by
  unfold ownKey?
  cases own : p.keyVariable? with
  | none => rfl
  | some name => rw [Option.bind_some,Option.bind_some,agree name own]

theorem ownKey?_empty (p : Provider) : p.ownKey? [] = none := by
  unfold ownKey?
  cases p.keyVariable? with
  | none => rfl
  | some name => rfl

theorem ownKey?_ne_nil {key : Text} (own : p.ownKey? env = some key) : key ≠ [] := by
  have filled := (Option.filter_eq_some_iff.1 own).2
  simpa using filled

theorem keyVariable?_injective {name : Text} (own : p.keyVariable? = some name)
    (same : q.keyVariable? = some name) : p = q := by
  rw [← own] at same
  cases p with
  | openai => cases q with
    | openai => rfl
    | _ => simp [keyVariable?] at same
  | openrouter => cases q with
    | openrouter => rfl
    | _ => simp [keyVariable?] at same
  | claude => cases q with
    | claude => rfl
    | _ => simp [keyVariable?] at same
  | ollama => cases own
  | custom => cases own

/-- An environment in which a variable has a value, and in which nothing else has one. -/
theorem ownKey?_single {name : Text} (own : q.keyVariable? = some name) (apart : q ≠ p) {key : Text}
    (filled : key ≠ []) : q.ownKey? [(name,key)] = some key ∧ p.AgreeOn [(name,key)] [] := by
  constructor
  · unfold ownKey?
    simp [own,filled]
  · intro variable_ theirs
    have different : variable_ ≠ name := fun same => apart (keyVariable?_injective own (same ▸ theirs))
    have missed : (variable_ == name) = false := by simpa using different
    rw [List.lookup_cons,missed]

end Provider

namespace ServiceSettings
variable {s : ServiceSettings} {env : Environment}

theorem withKey_of_unset (unset : s.key = none) :
    s.withKey env = { s with key := s.provider.ownKey? env } := by
  unfold withKey Provider.ownKey?
  rw [unset]
  dsimp only
  split
  · rename_i found
    rw [found]
    rfl
  · rename_i missing
    have none_ : (s.provider.keyVariable?.bind fun name => env.lookup name).filter
        (fun key => !key.isEmpty) = none := by
      refine Option.filter_eq_none_iff.2 fun key found => ?_
      cases key with
      | nil => simp
      | cons c r => exact absurd found (missing c r)
    rw [none_,← unset]

theorem withKey_of_set {key : Text} (set_ : s.key = some key) (filled : key ≠ []) :
    s.withKey env = s := by
  unfold withKey
  rw [set_]
  cases key with
  | nil => exact absurd rfl filled
  | cons c r => rfl

theorem provider_withKey (s : ServiceSettings) (env : Environment) :
    (s.withKey env).provider = s.provider := by
  unfold withKey
  split
  · rfl
  · split
    · rfl
    · rfl

theorem Sound.withKey (sound : s.Sound) : (s.withKey env).Sound := by
  unfold ServiceSettings.withKey
  split
  · exact sound
  · split
    · exact ⟨sound.temperature,sound.maxTokens⟩
    · exact sound

theorem withKey_empty (s : ServiceSettings) : s.withKey [] = s := by
  unfold withKey
  split
  · rfl
  · cases s.provider.keyVariable? with
    | none => rfl
    | some name => rfl

end ServiceSettings

namespace Settings

theorem ok_of_orInvalid {α : Type} {c : Checked α} {a : α} (fine : orInvalid c = .ok a) : c = .ok a := by
  cases c with
  | ok b =>
    cases fine
    rfl
  | faults fs => cases fine

theorem ofSections_environment (env : Environment) (s : Sections) :
    ofSections env s = (ofSections [] s).map (withKey env) := by
  unfold ofSections
  cases requireLanguage s.language with
  | error e => rfl
  | ok _ => cases check s.toValue with
    | faults fs => rfl
    | ok r =>
      change Except.ok (r.withKey env) = .ok ((r.withKey []).withKey env)
      have same : r.withKey [] = r := congrArg (fun t => { r with service := t }) r.service.withKey_empty
      rw [same]

/-- The environment only adds the key to what a settings file says. -/
theorem ofText_environment (env : Environment) (text : Text) :
    ofText env text = (ofText [] text).map (withKey env) := by
  unfold ofText
  cases Yaml.read (Text.plainFeeds text) with
  | error f => cases f <;> rfl
  | ok v =>
    dsimp only
    unfold ofValue
    cases v with
    | dict entries =>
      dsimp only
      cases Sections.ofEntries entries with
      | ok s => exact ofSections_environment env s
      | error f => rfl
    | _ => rfl

theorem sound_of_check {v : Value} {s : Settings} (read : check v = .ok s) : s.service.Sound := by
  unfold check at read
  simp only [Checked.seq_eq_ok,Checked.map_eq_ok] at read
  obtain ⟨_,_,⟨_,t,⟨_,_,⟨_,_,rfl⟩,_,rfl⟩,service,rfl⟩,_,rfl⟩ := read
  change t.Sound
  have given := Check.field_eq_ok.1 service
  cases there : v.get? "llm" with
  | none =>
    rw [there] at given
    injection given with given
    rw [← given]
    exact ⟨rfl,by decide⟩
  | some w =>
    rw [there] at given
    exact (ServiceSettings.check_eq_ok.1 given).sound

theorem exists_check_of_ofText {env : Environment} {text : Text} {s : Settings}
    (read : ofText env text = .ok s) : ∃ v r, check v = .ok r ∧ r.withKey env = s := by
  unfold ofText at read
  split at read
  · unfold ofValue at read
    split at read
    · cases read
    · split at read
      · rename_i sections _
        unfold ofSections at read
        cases language : requireLanguage sections.language with
        | error e =>
          rw [language] at read
          cases read
        | ok _ => cases checked : check sections.toValue with
          | faults fs =>
            rw [language,checked] at read
            cases read
          | ok r =>
            rw [language,checked] at read
            exact ⟨_,r,checked,by injection read⟩
      · cases read
    · cases read
  · cases read
  · cases read

theorem sound_ofText {env : Environment} {text : Text} {s : Settings}
    (read : ofText env text = .ok s) : s.service.Sound := by
  obtain ⟨_,r,checked,rfl⟩ := exists_check_of_ofText read
  exact (sound_of_check checked).withKey

end Settings

namespace Wishes

/-- An option says something of the service, or leaves it alone. -/
theorem service_place {s t : Sections} {e : Text × Value} (placed : place s e = .ok t) :
    t.service = s.service ∨ t.service = Value.insert s.service e.1 e.2 := by
  obtain ⟨name,v⟩ := e
  unfold place at placed
  dsimp only at placed
  split at placed
  · cases placed
    exact .inl rfl
  · split at placed
    · cases placed
      exact .inl rfl
    · split at placed
      · cases placed
        exact .inr rfl
      · split at placed
        · cases placed
          exact .inl rfl
        · cases placed

theorem lookup?_place {s t : Sections} {e : Text × Value} (placed : place s e = .ok t) {name : Text}
    (apart : name ≠ e.1) : Value.lookup? t.service name = Value.lookup? s.service name := by
  rcases service_place placed with same | same
  · rw [same]
  · rw [same,Value.lookup?_insert,if_neg apart]

theorem lookup?_foldlM {options : List (Text × Value)} {s t : Sections}
    (placed : options.foldlM place s = .ok t) {name : Text} (apart : ∀ e ∈ options, name ≠ e.1) :
    Value.lookup? t.service name = Value.lookup? s.service name := by
  induction options generalizing s with
  | nil =>
    injection placed with placed
    rw [placed]
  | cons e rest ih =>
    rw [List.foldlM_cons] at placed
    cases first : place s e with
    | error f =>
      rw [first] at placed
      cases placed
    | ok u =>
      rw [first] at placed
      rw [ih placed fun e inside => apart e (List.mem_cons_of_mem _ inside),
        lookup?_place first (apart e List.mem_cons_self)]

end Wishes

namespace Shell.Act
open ServiceSettings
variable {base : Settings} {env : Environment} {p : Provider}

theorem given_name (p : Provider) : given (some p.name) = some p.name := by
  cases p with
  | openai => rfl
  | openrouter => rfl
  | ollama => rfl
  | claude => rfl
  | custom => rfl

/-- The service to probe is that of the file with another provider, and perhaps another model. -/
theorem probed_eq (sound : base.service.Sound) (p : Provider) (model : Option Text) :
    probed env (some base) (some p.name) model = .ok (ServiceSettings.withKey env
      { base.service with provider := p, model := (given model).getD base.service.model }) := by
  have read : Read (.dict base.service.toValue.entries) base.service := sound.read_toValue
  have put := read.put_provider p
  unfold probed
  dsimp only [Option.map_some,Option.getD_some]
  rw [given_name]
  cases given model with
  | none =>
    dsimp only
    rw [check_eq_ok.2 put]
    rfl
  | some m =>
    dsimp only
    rw [check_eq_ok.2 (put.put_model m)]
    rfl

/-- What the arguments of a run say of the service: perhaps its provider, and perhaps its model. -/
theorem lookup?_options {c : Conversion} {s t : Sections} (named : c.provider = some p.name)
    (placed : (wishes c (some base)).options.foldlM Wishes.place s = .ok t) :
    Value.lookup? t.service "provider" = some (.text p.name) ∧
      Value.lookup? t.service "api_key" = Value.lookup? s.service "api_key" := by
  have others : ∀ e ∈ (wishes c (some base)).options, ("api_key" : Text) ≠ e.1 := by
    simp [wishes,Value.record,Value.entries]
  refine ⟨?_,Wishes.lookup?_foldlM placed others⟩
  change List.foldlM Wishes.place s (_ :: ("provider",Value.optional .text c.provider) :: _) = _ at placed
  rw [named,List.foldlM_cons] at placed
  obtain ⟨u,_,placed⟩ := ok_of_bind placed
  rw [List.foldlM_cons] at placed
  obtain ⟨v,put,placed⟩ := ok_of_bind placed
  rw [Wishes.lookup?_foldlM placed (by simp)]
  injection put with put
  rw [← put]
  change Value.lookup? (Value.insert u.service "provider" (.text p.name)) "provider" = _
  rw [Value.lookup?_insert,if_pos rfl]

/-- The service of a run has the provider that the arguments name, and the key that was there. -/
theorem service_settings {c : Conversion} {r : Settings} (named : c.provider = some p.name)
    (made : (wishes c (some base)).settings env (some base) = .ok r) :
    ∃ t : ServiceSettings, r.service = t.withKey env ∧ t.provider = p ∧ t.key = base.service.key := by
  obtain ⟨_,_,made⟩ := ok_of_bind made
  obtain ⟨sections,placed,made⟩ := ok_of_bind made
  dsimp only at made
  cases project : ProjectSettings.check (wishes c (some base)).project with
  | faults fs =>
    rw [project] at made
    cases made
  | ok project_ =>
    rw [project] at made
    obtain ⟨_,_,made⟩ := ok_of_bind made
    obtain ⟨language,_,made⟩ := ok_of_bind made
    obtain ⟨service,checked,made⟩ := ok_of_bind made
    obtain ⟨run,_,made⟩ := ok_of_bind made
    injection made with made
    obtain ⟨provider,key⟩ := lookup?_options named placed
    have read := check_eq_ok.1 (Settings.ok_of_orInvalid checked)
    have written : Value.lookup? base.service.toValue.entries "api_key" =
        some (.optional .text base.service.key) := (get?_toValue base.service).2.2.1
    have left := read.provider.symm.trans (field_of_get? provider (choiceOf_name p))
    have kept := read.key.symm.trans (field_of_get? (key.trans written) (optional_text base.service.key))
    injection left with left
    injection kept with kept
    exact ⟨service,(congrArg Settings.service made).symm,left,kept⟩

/-- The service that a command asks when its arguments name a provider: that of the settings of a run,
or that of a probe, on top of a settings file. -/
def Chosen (env : Environment) (text : Text) (p : Provider) (s : ServiceSettings) : Prop :=
  ∃ base, Settings.ofText env text = .ok base ∧
    ((∃ c r, Conversion.provider c = some p.name ∧
        (wishes c (some base)).settings env (some base) = .ok r ∧ r.service = s) ∨
      ∃ model, probed env (some base) (some p.name) model = .ok s)

section
variable {text : Text} {plain : Settings} (read : Settings.ofText [] text = .ok plain)
include read

theorem ofText_of_empty (env : Environment) : Settings.ofText env text = .ok (plain.withKey env) := by
  rw [Settings.ofText_environment,read]
  rfl

theorem exists_chosen (env : Environment) (p : Provider) : ∃ s, Chosen env text p s :=
  ⟨_,_,ofText_of_empty read env,.inr ⟨none,probed_eq (Settings.sound_ofText (ofText_of_empty read env)) p none⟩⟩

variable (unset : plain.service.key = none)
include unset

/-- The key of the provider that the file names comes before that of the provider that is asked. -/
theorem Chosen.key_eq {s : ServiceSettings} (chosen : Chosen env text p s) :
    s.provider = p ∧ s.key = (plain.service.provider.ownKey? env).or (p.ownKey? env) := by
  obtain ⟨base,loaded,command⟩ := chosen
  rw [ofText_of_empty read env] at loaded
  injection loaded with loaded
  have first : base.service.key = plain.service.provider.ownKey? env := by
    rw [← loaded]
    exact congrArg ServiceSettings.key (withKey_of_unset unset)
  have later : ∃ t : ServiceSettings, s = t.withKey env ∧ t.provider = p ∧ t.key = base.service.key := by
    rcases command with ⟨c,r,named,made,rfl⟩ | ⟨model,probed_⟩
    · exact service_settings named made
    · have sound := Settings.sound_ofText (ofText_of_empty read env)
      rw [loaded] at sound
      rw [probed_eq sound] at probed_
      injection probed_ with probed_
      exact ⟨_,probed_.symm,rfl,rfl⟩
  obtain ⟨t,rfl,rfl,same⟩ := later
  refine ⟨provider_withKey t env,?_⟩
  cases own : plain.service.provider.ownKey? env with
  | none =>
    rw [withKey_of_unset (same.trans (first.trans own))]
    rfl
  | some key =>
    have set_ := same.trans (first.trans own)
    rw [withKey_of_set set_ (Provider.ownKey?_ne_nil own),set_]
    rfl

/-- Where no key stands in the settings file, a command that names a provider sends it the key of its
own just when the provider that the file names has none, or the same. The variables of the other
providers are without influence just when the file names no other provider with a variable. -/
theorem chosen_key (p : Provider) :
    (∀ env, ∃ s, Chosen env text p s) ∧
    (∀ env s, Chosen env text p s →
      s.provider = p ∧ s.key = (plain.service.provider.ownKey? env).or (p.ownKey? env) ∧
      (s.key = p.ownKey? env ↔ plain.service.provider.ownKey? env = none ∨
        plain.service.provider.ownKey? env = p.ownKey? env)) ∧
    ((∀ env other s t, p.AgreeOn env other → Chosen env text p s → Chosen other text p t →
        s.key = t.key) ↔
      plain.service.provider.keyVariable? = none ∨ plain.service.provider = p) := by
  refine ⟨fun env => exists_chosen read env p,fun env s chosen => ?_,?_,?_⟩
  · obtain ⟨provider,key⟩ := chosen.key_eq read unset
    refine ⟨provider,key,?_⟩
    rw [key]
    cases plain.service.provider.ownKey? env with
    | none => simp
    | some first => simp
  · intro blind
    cases own : plain.service.provider.keyVariable? with
    | none => exact .inl rfl
    | some name =>
      refine .inr (Decidable.byContradiction fun apart => ?_)
      obtain ⟨held,agree⟩ := Provider.ownKey?_single own apart (List.cons_ne_nil 'k' [])
      obtain ⟨s,first⟩ := exists_chosen read [(name,['k'])] p
      obtain ⟨t,second⟩ := exists_chosen read [] p
      have same := blind _ _ s t agree first second
      rw [(first.key_eq read unset).2,(second.key_eq read unset).2,held,Provider.ownKey?_empty,
        Provider.ownKey?_empty] at same
      cases same
  · rintro alone env other s t agree first second
    rw [(first.key_eq read unset).2,(second.key_eq read unset).2,agree.ownKey?_eq]
    rcases alone with none_ | rfl
    · unfold Provider.ownKey?
      rw [none_]
      rfl
    · rw [agree.ownKey?_eq]

end

/-- A settings file that names no provider, so that it is the first one. -/
def keyless : Text :=
  "language:\n  target_language: plain\n  input_extension: .src\n  output_extension: .out\n  prompt: Go.\n"

theorem exists_ofText_keyless : ∃ plain, Settings.ofText [] keyless = .ok plain ∧
    plain.service.key = none ∧ plain.service.provider = .openai := by
  have ran : (match Settings.ofText [] keyless with
    | .ok plain => decide (plain.service.key = none ∧ plain.service.provider = .openai)
    | .error _ => false) = true := by decide +kernel
  cases same : Settings.ofText [] keyless with
  | ok plain =>
    rw [same] at ran
    exact ⟨plain,rfl,of_decide_eq_true ran⟩
  | error e =>
    rw [same] at ran
    cases ran

/-- A key for the first provider is sent to another one. -/
theorem chosen_key_keyless :
    ∃ plain, Settings.ofText [] keyless = .ok plain ∧ plain.service.key = none ∧
    (∀ env, ∃ s, Chosen env keyless .openrouter s) ∧
    (∀ env s, Chosen env keyless .openrouter s →
      s.provider = .openrouter ∧
      s.key = (plain.service.provider.ownKey? env).or (Provider.openrouter.ownKey? env) ∧
      (s.key = Provider.openrouter.ownKey? env ↔ plain.service.provider.ownKey? env = none ∨
        plain.service.provider.ownKey? env = Provider.openrouter.ownKey? env)) ∧
    ((∀ env other s t, Provider.openrouter.AgreeOn env other → Chosen env keyless .openrouter s →
        Chosen other keyless .openrouter t → s.key = t.key) ↔
      plain.service.provider.keyVariable? = none ∨ plain.service.provider = .openrouter) := by
  obtain ⟨plain,read,unset,_⟩ := exists_ofText_keyless
  exact ⟨plain,read,unset,chosen_key read unset .openrouter⟩

/-- Both commands ask another provider with the key of the one that the file stands for. -/
theorem chosen_astray :
    let env : Environment := [("OPENAI_API_KEY","secret")]
    (∃ plain, Settings.ofText [] keyless = .ok plain ∧ plain.service.key = none) ∧
      Provider.openrouter.ownKey? env = none ∧
      ∃ base, Settings.ofText env keyless = .ok base ∧
        (∃ s, probed env (some base) (some "openrouter") none = .ok s ∧
          s.provider = .openrouter ∧ s.key = some "secret") ∧
        ∀ c r, Conversion.provider c = some "openrouter" →
          (wishes c (some base)).settings env (some base) = .ok r →
            r.service.provider = .openrouter ∧ r.service.key = some "secret" := by
  intro env
  obtain ⟨plain,read,unset,first⟩ := exists_ofText_keyless
  have loaded := ofText_of_empty read env
  have sent (s : ServiceSettings) (chosen : Chosen env keyless .openrouter s) :
      s.provider = .openrouter ∧ s.key = some "secret" := by
    obtain ⟨provider,key⟩ := chosen.key_eq read unset
    rw [key,first]
    exact ⟨provider,by decide⟩
  have found := @probed_eq _ env (Settings.sound_ofText loaded) .openrouter none
  exact ⟨⟨plain,read,unset⟩,by decide,_,loaded,⟨_,found,sent _ ⟨_,loaded,.inr ⟨none,found⟩⟩⟩,
    fun c r named made => sent _ ⟨_,loaded,.inl ⟨c,r,named,made,rfl⟩⟩⟩

end Shell.Act

end Recast
