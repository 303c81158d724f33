import Recast.Proofs.Repair
import Recast.Proofs.Source.Outline
import Recast.Run.File

/-! The conversion of a file by a service that sends every code back. Cutting into chunks, outlines,
reassembly and repair lose nothing: the file comes out as it went in. -/
namespace Recast
open Text

/-- No watcher has the run cancelled. -/
def Watch.GoOn (watches : List Watch) : Prop := ∀ h ∈ watches, h.command ≠ .cancel

/-- A run that may go on, over files that stay as they are. -/
def World.Calm (t : Tree) (w : World) : Prop := w.line.Running ∧ w.tree = t

/-- A run that goes on, with nothing but events and pauses since it was at a world. -/
structure World.Onward (w v : World) : Prop where
  running : v.line.Running
  calls : v.line.calls = w.line.calls
  tree : v.tree = w.tree
  progress : v.progress = w.progress
  delays : v.delays = w.delays

theorem World.Onward.refl {w : World} (running : w.line.Running) : w.Onward w :=
  ⟨running,rfl,rfl,rfl,rfl⟩

namespace Run
variable {α : Type} {t : Tree}

theorem gives_observe {kept : World → Prop} {step : Run α} {good : α → Prop}
    (gives : Steps.Gives kept step good) :
    Steps.Gives kept (observe step) fun r => ∃ a, r = .ok a ∧ good a := by
  intro w before
  obtain ⟨a,u,same,fine,after⟩ := gives w before
  exact ⟨.ok a,u,by rw [run_observe,same],⟨a,rfl,fine⟩,after⟩

theorem gives_talk {talked : Talk α} {good : α → Prop}
    (gives : Steps.Gives Line.Running talked good) :
    Steps.Gives (World.Calm t) (talk talked) good := by
  intro w calm
  obtain ⟨a,line,same,fine,running⟩ := gives w.line calm.1
  exact ⟨a,{ w with line := line },by rw [run_talk,same]; rfl,fine,running,calm.2⟩

theorem onward_emit {watches : List Watch} (goOn : Watch.GoOn watches) (e : Event) (w : World) :
    Steps.Gives w.Onward (emit watches e) fun _ => True := by
  refine .modify fun v on => ⟨?_,on.calls,on.tree,on.progress,on.delays⟩
  unfold Line.Running World.publish
  refine (Control.obeyAll_cancelled ?_ v.line.control).trans on.running
  intro member
  obtain ⟨h,inside,same⟩ := List.mem_map.1 member
  exact goOn h (List.mem_filter.1 inside).1 same

theorem onward_poll {watches : List Watch} (goOn : Watch.GoOn watches) (w : World) :
    Steps.Gives w.Onward (poll watches) fun _ => True := by
  have looked : Steps.Gives w.Onward control (·.cancelled = false) := by
    intro v on
    exact ⟨v.line.control,v,rfl,on.running,on⟩
  have waited : Steps.Gives w.Onward wait fun _ => True := by
    refine .modify fun v on => ?_
    have running : v.line.control.cancelled = false := on.running
    unfold World.unpause
    rw [if_neg (by simp [running])]
    exact ⟨running,on.calls,on.tree,on.progress,on.delays⟩
  have ends : Steps.Gives w.Onward (do
      if (← control).cancelled then throw .cancelled : Run Unit) fun _ => True := by
    refine looked.bind fun now running => ?_
    rw [running]
    exact .pure trivial
  unfold poll
  refine looked.bind fun now running => ?_
  dsimp only
  split
  · refine (onward_emit goOn _ w).bind fun _ _ => waited.bind fun _ _ =>
      looked.bind fun later stays => ?_
    rw [stays]
    exact (onward_emit goOn _ w).bind fun _ _ => ends
  · exact ends

theorem gives_of_onward {step : Run α} {good : α → Prop}
    (onward : ∀ w : World, Steps.Gives w.Onward step good) : Steps.Gives (World.Calm t) step good := by
  intro w calm
  obtain ⟨a,v,same,fine,on⟩ := onward w w (.refl calm.1)
  exact ⟨a,v,same,fine,on.running,on.tree.trans calm.2⟩

theorem gives_emit {watches : List Watch} (goOn : Watch.GoOn watches) (e : Event) :
    Steps.Gives (World.Calm t) (emit watches e) fun _ => True := gives_of_onward (onward_emit goOn e)

theorem gives_poll {watches : List Watch} (goOn : Watch.GoOn watches) :
    Steps.Gives (World.Calm t) (poll watches) fun _ => True := gives_of_onward (onward_poll goOn)

end Run

namespace Converter

/-- Lines of a text that is sent and comes back. -/
structure Clear (ls : List Text) : Prop where
  feeds : FeedLines ls
  plain : Plain ls.flatten
  unmarked : ∀ line ∈ ls, Lacks Outline.markerWord line

theorem Clear.not_marked {ls : List Text} (clear : Clear ls) : ∀ line ∈ ls, ¬ Outline.Marked line :=
  fun line member => Outline.not_marked_of_lacks (clear.unmarked line member)

theorem foreign_of_reserved : ∀ word ∈ reserved,
    ∃ c r, word = c :: r ∧ Outline.Foreign c ∧ '\n' ∉ c :: r := by
  have shape (word : Text) (c : Char) (same : word = c :: word.tail) (foreign : Outline.Foreign c)
      (fresh : '\n' ∉ word) : ∃ c r, word = c :: r ∧ Outline.Foreign c ∧ '\n' ∉ c :: r :=
    ⟨c,word.tail,same,foreign,same ▸ fresh⟩
  have angle : Outline.Foreign '<' := ⟨rfl,rfl,by decide,by decide⟩
  simp only [reserved,List.forall_mem_cons]
  exact ⟨shape _ '&' (by decide) ⟨rfl,rfl,by decide,by decide⟩ (by decide),
    shape _ '`' (by decide) ⟨rfl,rfl,by decide,by decide⟩ (by decide),
    shape _ '<' (by decide) angle (by decide),shape _ '<' (by decide) angle (by decide),
    shape _ '<' (by decide) angle (by decide),
    shape _ 'C' (by decide) ⟨rfl,rfl,by decide,by decide⟩ (by decide),by simp⟩

/-- The outline of a text that is sent, and its bodies, are sent too. -/
theorem Clear.outline {ls : List Text} (clear : Clear ls) (symbols : Symbols) :
    Plain (Outline.ofText symbols ls.flatten).text ∧
      ∀ body ∈ (Outline.ofText symbols ls.flatten).bodies, Plain body := by
  obtain ⟨shown,woven,same⟩ := Outline.ofText_flatten symbols clear.feeds clear.not_marked
  constructor
  · intro word member
    obtain ⟨c,r,rfl,foreign,fresh⟩ := foreign_of_reserved word member
    rw [same]
    exact woven.lacks _ foreign fresh clear.feeds fun line inside =>
      (clear.plain _ member).of_within (List.infix_of_mem_flatten inside)
  · exact fun body member => clear.plain.of_within (woven.within body member)

/-- A conversion into a language of braces by a service that sends every code back, with a prompt
that does not announce code. -/
structure Echoing (c : Converter) : Prop where
  echoes : Echoes c.service
  goesOn : c.service.GoesOn
  watched : Watch.GoOn c.watches
  tags : c.settings.language.tags = .standard
  symbols : c.settings.language.symbols = .braces
  issues : c.target.issues = Symbols.braces.issues
  prompt : Lacks headingWord c.settings.language.prompt

/-- The transcript of a file can be written, where one is kept. -/
def TranscriptFits (c : Converter) (source : Text) (t : Tree) : Prop :=
  c.settings.run.transcripts = true →
    ∃ u, t.makeFolders (Key.ofPath (c.store.folder.child "conversations")) = .ok u ∧
      u.blocked? (Key.ofPath (c.store.folder.child "conversations") ++ [transcriptName source]) = none

theorem TranscriptFits.run_saveTranscript {c : Converter} {source : Text} {w : World}
    (fits : c.TranscriptFits source w.tree) (history : History) :
    ∃ later, (c.saveTranscript source history).run.run w = (.ok (),later) := by
  unfold saveTranscript
  split
  · rename_i kept
    obtain ⟨u,made,free⟩ := fits kept
    simp only [Run.files,Steps.run_bind,Steps.run_get,made,Except.bind,Tree.write,free]
    exact ⟨_,rfl⟩
  · exact ⟨w,rfl⟩

theorem endingLike_self (text : Text) : endingLike text text = text := by
  unfold endingLike
  cases endsWith "\n" text <;> simp

/-- The chunks of a content are made up of its lines, in their order. -/
theorem split_clear (settings : LanguageSettings) {content : Text} (plain : Plain content)
    (unmarked : Lacks Outline.markerWord content) (feeds : OnlyFeeds content) :
    ((Chunk.split settings content).map Chunk.text).flatten = content ∧
      ∀ chunk ∈ Chunk.split settings content, ∃ ls, Clear ls ∧ chunk.text = ls.flatten := by
  have whole : (Chunk.gather settings [] 0 0 (lines content)).flatten = lines content :=
    Chunk.flatten_gather settings [] 0 0 (lines content)
  unfold Chunk.split Chunk.number
  generalize Chunk.gather settings [] 0 0 (lines content) = groups at whole
  constructor
  · have texts : ((groups.map List.flatten).mapIdx fun i text =>
        (⟨i,text,Chunk.isStructural settings text⟩ : Chunk)).map Chunk.text = groups.map List.flatten := by
      apply List.ext_getElem?
      simp [Function.comp_def]
    rw [texts,← List.flatten_flatten,whole,flatten_lines]
  · intro chunk member
    obtain ⟨i,bound,rfl⟩ := List.mem_mapIdx.1 member
    obtain ⟨ls,inside,text⟩ := List.mem_map.1 (List.getElem_mem bound)
    obtain ⟨before,behind,rfl⟩ := List.append_of_mem inside
    have parts : before.flatten ++ ls ++ behind.flatten = lines content := by simpa using whole
    refine ⟨ls,⟨?_,plain.of_within ?_,fun line held => unmarked.of_within ?_⟩,text.symm⟩
    · exact FeedLines.of_within (parts ▸ feeds.feedLines)
    · refine ⟨before.flatten.flatten,behind.flatten.flatten,?_⟩
      rw [← flatten_lines content,← parts,List.flatten_append,List.flatten_append]
    · rw [← flatten_lines content,← parts]
      exact List.infix_of_mem_flatten (by simp [held])

theorem run_summaryContext {c : Converter} (given : c.settings.run.summaries = false) (w : World) :
    (c.summaryContext []).run.run w = (.ok [],w) := by
  unfold summaryContext
  rw [if_neg (by simp),Steps.run_bind,Steps.run_get]
  simp only [given,Bool.false_and,Bool.false_eq_true,if_false]
  rfl

/-- A file is tried once, unless the service fails. -/
theorem run_retry {c : Converter} {once : Run Converted} {failure : Text → Converted}
    {r : Except RunError Converted} {w later : World} (ends : once.run.run w = (r,later))
    (unfailed : ∀ why, r ≠ .error (.talk (.service why))) (left tried : Nat) :
    (c.retry once failure left tried).run.run w = (r,later) := by
  unfold retry
  rw [Steps.run_bind,Run.run_observe,ends]
  rcases r with e | f
  · rcases e with t | _
    · cases t with
      | service why => exact absurd rfl (unfailed why)
      | incomplete _ _ => rfl
      | notText => rfl
    all_goals rfl
  · rfl

section
variable {c : Converter} (echoing : Echoing c) {t : Tree}
include echoing

theorem gives_convertText {prompt text context : Text}
    (silent : Lacks Session.codeHeading (Session.preface prompt context)) (plain : Plain text)
    (history : History) :
    Steps.Gives (World.Calm t) (c.convertText prompt text context history) fun r =>
      r.1 = text ∧ r.2.2 = true := by
  have talked := c.session.gives_convert echoing.echoes echoing.goesOn echoing.tags silent plain
    history
  unfold convertText
  refine (Run.gives_observe (Run.gives_talk talked)).bind fun r ⟨⟨code,later⟩,same,sent⟩ => ?_
  subst same
  exact .pure ⟨sent,rfl⟩

/-- The prompt of the settings announces no code. -/
theorem quiet_prompt : Lacks Session.codeHeading (trim c.settings.language.prompt ++ "\n\n") :=
  Session.lacks_heading ((echoing.prompt.of_within (trim_within _)).append_of_fresh (by decide) (by decide))

theorem gives_convertBodies {context : Text} (free : Lacks headingWord context) {bodies : List Text}
    (plain : ∀ body ∈ bodies, Plain body) (history : History) :
    Steps.Gives (World.Calm t) (c.convertBodies context bodies history) fun r =>
      r.1 = bodies ∧ r.2.2 = true := by
  induction bodies generalizing history with
  | nil => exact .pure ⟨rfl,rfl⟩
  | cons body rest ih =>
    have silent := Session.lacks_preface (quiet_prompt echoing) free
    unfold convertBodies
    refine (Run.gives_poll echoing.watched).bind fun _ _ => ?_
    refine (gives_convertText echoing silent (plain body (by simp)) history).bind
      fun (code,later,complete) ⟨sent,whole⟩ => ?_
    refine (ih (fun other member => plain other (by simp [member])) later).bind
      fun (more,last,all) ⟨bodies,rest⟩ => ?_
    simp only at sent whole bodies rest
    subst sent whole bodies rest
    exact .pure ⟨by rw [endingLike_self],rfl⟩

theorem gives_convertOutline {ls : List Text} (clear : Clear ls) (history : History) :
    Steps.Gives (World.Calm t) (c.convertOutline ls.flatten [] history) fun r =>
      r.1 = ls.flatten ∧ r.2.2 = true := by
  obtain ⟨plain,bodies⟩ := clear.outline c.settings.language.symbols
  have note : Lacks headingWord (c.settings.language.prompt ++ "\n\n" ++ outlineNote) := by
    rw [List.append_assoc]
    exact echoing.prompt.append_of_fresh (by decide) (by decide +kernel)
  have silent : Lacks Session.codeHeading
      (Session.preface (c.settings.language.prompt ++ "\n\n" ++ outlineNote) []) :=
    Session.lacks_preface (Session.lacks_heading ((note.of_within (trim_within _)).append_of_fresh
      (by decide) (by decide))) (by decide +kernel)
  have member : Lacks headingWord (trim (([] : Text) ++ "\n\nThe member belongs to:\n" ++
      (Outline.ofText c.settings.language.symbols ls.flatten).text)) := by
    refine Lacks.of_within ?_ (trim_within _)
    have heading := plain headingWord (by simp [reserved])
    rw [Repairer.headingWord_eq] at heading ⊢
    exact heading.append_of_head (by decide +kernel)
  unfold convertOutline
  refine (gives_convertText echoing silent plain history).bind
    fun (code,later,complete) ⟨sent,whole⟩ => ?_
  refine (gives_convertBodies echoing member bodies later).bind
    fun (found,last,all) ⟨same,rest⟩ => ?_
  simp only at sent whole same rest
  subst sent whole same rest
  exact .pure ⟨Outline.reassemble_ofText _ _ clear.feeds clear.not_marked,rfl⟩

theorem gives_convertChunk {chunk : Chunk} {ls : List Text} (clear : Clear ls)
    (same : chunk.text = ls.flatten) (history : History) :
    Steps.Gives (World.Calm t) (c.convertChunk chunk [] history) fun r =>
      r.1 = chunk.text ∧ r.2.2 = true := by
  unfold convertChunk
  rw [same]
  split
  · exact gives_convertOutline echoing clear history
  · exact gives_convertText echoing (Session.lacks_preface (quiet_prompt echoing) (by decide +kernel))
      clear.plain history

/-- Chunks that are given by their lines come back one behind the other. -/
theorem gives_convertChunks (source : Text) (total : Nat) {chunks : List Chunk}
    (clear : ∀ chunk ∈ chunks, ∃ ls, Clear ls ∧ chunk.text = ls.flatten) (history : History) :
    Steps.Gives (World.Calm t) (c.convertChunks source [] total chunks history) fun r =>
      r.1 = (chunks.map Chunk.text).flatten ∧ r.2.1 = [] := by
  induction chunks generalizing history with
  | nil => exact .pure ⟨rfl,rfl⟩
  | cons chunk rest ih =>
    obtain ⟨ls,lines,same⟩ := clear chunk (by simp)
    unfold convertChunks
    refine (Run.gives_poll echoing.watched).bind fun _ _ => ?_
    refine (gives_convertChunk echoing lines same history).bind
      fun (code,later,complete) ⟨sent,whole⟩ => ?_
    refine (Run.gives_emit echoing.watched _).bind fun _ _ => ?_
    refine (ih (fun other member => clear other (by simp [member])) later).bind
      fun (more,failed,last) ⟨others,none_⟩ => ?_
    simp only at sent whole others none_
    subst sent whole others none_
    exact .pure ⟨by rw [endingLike_self]; rfl,rfl⟩

variable (language : Lacks Session.codeHeading c.settings.language.target)
include language

/-- Repair rounds leave the code as it is, and report what is wrong with it. -/
theorem gives_repairRounds {code : Text} (plain : Plain code) (feeds : OnlyFeeds code)
    (source : Text) (history : History) (left done : Nat) :
    Steps.Gives (World.Calm t) (c.repairRounds source history left done code (c.target.issues code))
      fun r => r.1 = code ∧ r.2.1 = c.target.issues code := by
  have steady : Repairer.Steady c.repairer code := by
    refine ⟨plain,feeds,fun issue member => ?_,fun issue member => ?_⟩
    · exact Symbols.line_of_issue (by rw [← echoing.issues]; exact member)
    · change issue ∈ c.target.issues code at member
      rw [echoing.issues] at member
      exact Symbols.notMem_shown member
  have repaired : Steps.Gives (World.Calm t)
      (c.repairOnce code (c.target.issues code) history) (· = code) := by
    intro w calm
    obtain ⟨found,s,same,rfl,kept⟩ := Repairer.gives_passes (r := c.repairer) echoing.echoes
      echoing.goesOn echoing.tags language steady c.settings.run.maxRepairDepth 0
      { line := w.line, history := some history, best := (code,c.target.issues code) }
      ⟨rfl,calm.1⟩
    refine ⟨found,{ w with line := s.line },?_,rfl,kept.2,calm.2⟩
    have ends : c.repairer.repair found (c.target.issues found) (some history) w.line =
      (.ok found,s) := same
    rw [run_repairOnce,ends]
    rfl
  induction left generalizing done with
  | zero =>
    unfold repairRounds
    split
    · rename_i none_
      exact .pure ⟨rfl,(List.isEmpty_iff.1 none_).symm⟩
    · exact .pure ⟨rfl,rfl⟩
  | succ left ih =>
    unfold repairRounds
    split
    · rename_i none_
      exact .pure ⟨rfl,(List.isEmpty_iff.1 none_).symm⟩
    · refine (Run.gives_poll echoing.watched).bind fun _ _ => ?_
      refine (Run.gives_talk (c.session.gives_confirm echoing.echoes echoing.goesOn _ _ history)).bind
        fun wanted _ => ?_
      split
      · refine repaired.bind fun found same => ?_
        subst same
        exact (Run.gives_emit echoing.watched _).bind fun _ _ => ih (done + 1)
      · exact .pure ⟨rfl,rfl⟩

/-- What a file with its code unchanged is said to be. -/
theorem finish_lossless {content : Text} (plain : Plain content) (feeds : OnlyFeeds content)
    (source output : Text) (history : History) {w : World} (running : w.line.Running)
    (fits : c.TranscriptFits source w.tree) :
    ∃ f later, (c.finish source output content content [] history).run.run w = (.ok f,later) ∧
      f.content = content ∧ f.failedChunks = [] ∧ f.outcome ≠ .failed ∧
      (f.outcome = .flagged ↔ c.target.issues content ≠ []) := by
  obtain ⟨⟨code,issues,reason⟩,repaired,same,⟨kept,left⟩,calm⟩ :=
    gives_repairRounds echoing language plain feeds source history c.settings.run.maxRepairRounds 0 w
      ⟨running,rfl⟩
  simp only at kept left
  subst kept left
  obtain ⟨later,saved⟩ := TranscriptFits.run_saveTranscript (calm.2 ▸ fits) history
  unfold finish
  rw [if_neg (by simp),Steps.run_bind,same]
  dsimp only
  rw [Steps.run_bind,saved]
  refine ⟨_,later,rfl,rfl,rfl,?_⟩
  cases c.target.issues code <;> simp

end

/-- A service that sends every code back, and every other request as a whole. -/
def echoService : Service where
  answer := fun _ request =>
    { outcome := .reply (.text ("<code>" ++ Script.quoted (Script.lastContent request) ++ "</code>")) }
  reachable := .reply (.text "ready")

theorem echoes_echoService : Echoes echoService := by
  constructor
  · exact fun _ _ => ⟨_,rfl⟩
  · intro past request before code found
    unfold echoService Script.quoted
    simp only [found]

/-- A converter with outlines for all but the shortest types. -/
def echoing (target : Text) : Converter where
  settings := { language := {
    target := target, inputExtension := ".src", outputExtension := ".out", prompt := "Translate.",
    outlineThreshold := 1 } }
  service := echoService
  target := .blocks "plain" ".out" .braces
  store := ⟨.ofText "state"⟩
  now := 0

theorem echoing_echoing (target : Text) : Echoing (echoing target) where
  echoes := echoes_echoService
  goesOn := fun _ _ member => by cases member
  watched := fun _ member => by cases member
  tags := rfl
  symbols := rfl
  issues := rfl
  prompt := by
    unfold echoing
    dsimp only
    decide +kernel

/-- A type that is long enough for an outline, with a body that ends in the middle of a line. -/
def nested : Text := "class A \x7b\n\tf() \x7b\r\n  \x7d  \x7d // no feed"

end Converter

end Recast
