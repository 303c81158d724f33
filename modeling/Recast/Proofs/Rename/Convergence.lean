import Recast.Proofs.Rename.Lines

/-! A renaming comes to rest. Once a pass has gone through the files of a project, the next one changes
nothing, as long as no type has the name of a word that lines are read by. -/
namespace Recast
open Text Target Renaming

/-- Names that no other rename reaches and no line is read by, in namespaces that begin like a name. -/
structure NameIndex.Restful (x : NameIndex) : Prop where
  worded : x.Worded
  unused : ∀ e ∈ x.all, e.new ≠ e.old → ∀ f ∈ x.all, e.new ≠ f.old
  quiet : ∀ e ∈ x.all, e.old ∉ keywords ∧ e.new ∉ keywords
  leading : ∀ e ∈ x.all, e.space ≠ [] → e.space.head?.any isNameStart = true

namespace NameIndex.Restful
variable {x : NameIndex} (restful : x.Restful)
include restful

theorem renamed_keyword {w : Text} (member : w ∈ keywords) : renamed x w = w := by
  unfold renamed
  cases found : x.resolve? w with
  | none => rfl
  | some e =>
    obtain ⟨inside,named⟩ := mem_of_resolve? found
    obtain ⟨old,new⟩ := restful.quiet e inside
    rcases named with rfl | rfl
    · exact absurd member old
    · exact absurd member new

theorem renamed_renamed (w : Text) : renamed x (renamed x w) = renamed x w := by
  cases found : x.resolve? w with
  | none =>
    have same : renamed x w = w := by unfold renamed; rw [found]
    rw [same,same]
  | some e =>
    obtain ⟨inside,named⟩ := mem_of_resolve? found
    have first : renamed x w = e.new := by unfold renamed; rw [found]
    rw [first]
    by_cases kept : e.new = w
    · rw [kept] at first ⊢
      exact first
    · have old : e.old = w := named.resolve_right kept
      have renamed_ : e.new ≠ e.old := fun same => kept (same.trans old)
      unfold renamed
      cases again : x.resolve? e.new with
      | none => rfl
      | some d =>
        obtain ⟨there,named⟩ := mem_of_resolve? again
        exact named.resolve_left fun same => restful.unused e inside renamed_ d there same.symm

theorem run_renamed {w : Text} (run : IsRun isNameStart isAsciiWord w) :
    IsRun isNameStart isAsciiWord (renamed x w) :=
  Naming.isIdentifier_iff.1 (restful.worded.isIdentifier_renamed (Naming.isIdentifier_iff.2 run))

/-- A name that a rename gives is that of a type and no name that a line is read by. -/
theorem given_new {source w : Text} (changed : given (longestFirst (x.renamesFor source)) w ≠ w) :
    Naming.isIdentifier (given (longestFirst (x.renamesFor source)) w) = true ∧
      given (longestFirst (x.renamesFor source)) w ∉ keywords ∧
        ∀ f ∈ x.all, given (longestFirst (x.renamesFor source)) w ≠ f.old := by
  have renamed_ := (given_cases (longestFirst (x.renamesFor source)) w).resolve_left changed
  obtain ⟨e,inside,pair,new⟩ := of_mem_renamesFor ((Ordered.sort_perm _ _).mem_iff.1 renamed_)
  rw [(Prod.mk.inj pair).2]
  exact ⟨restful.worded.news e inside,(restful.quiet e inside).2,restful.unused e inside new⟩

theorem given_given (source w : Text) :
    given (longestFirst (x.renamesFor source)) (given (longestFirst (x.renamesFor source)) w) =
      given (longestFirst (x.renamesFor source)) w := by
  by_cases same : given (longestFirst (x.renamesFor source)) w = w
  · rw [same,same]
  · obtain ⟨_,_,other⟩ := restful.given_new same
    rcases given_cases (longestFirst (x.renamesFor source)) (given (longestFirst (x.renamesFor source)) w)
      with kept | again
    · exact kept
    · obtain ⟨e,inside,pair,_⟩ := of_mem_renamesFor ((Ordered.sort_perm _ _).mem_iff.1 again)
      exact absurd (Prod.mk.inj pair).1 (other e inside)

/-- The first word of a line that is read by it stays what it is. -/
theorem mapNames_keyword {w rest : Text} (member : w ∈ structuralWords) (ended : endsWord rest = true) :
    mapNames (renamed x) [] (w ++ rest) = w ++ mapNames (renamed x) [] rest := by
  have changes := changesRuns_mapNames (renamed x)
  obtain ⟨mark,name,rfl,marked,known⟩ := structuralWord_shape member
  obtain ⟨begins,all⟩ := keyword_shape known
  have plain : ∀ c ∈ mark, isNameStart c = false := by
    intro c inside
    rcases marked with rfl | rfl
    · cases inside
    · rw [List.mem_singleton.1 inside]
      rfl
  rw [List.append_assoc,changes.append_plain plain,changes.run name rest ⟨begins,all⟩ (any_isAsciiWord_of_endsWord ended),
    restful.renamed_keyword known,List.append_assoc]

/-- Such a line is blanks, its first word and the rest, and only the rest changes. -/
theorem mapNames_structural {body : Text} (structural : isStructural body = true) :
    ∃ indent w rest, body = indent ++ (w ++ rest) ∧ blank indent = true ∧ w ∈ structuralWords ∧
      endsWord (mapNames (renamed x) [] rest) = true ∧
        mapNames (renamed x) [] body = indent ++ (w ++ mapNames (renamed x) [] rest) := by
  have changes := changesRuns_mapNames (renamed x)
  obtain ⟨w,member,rest,trimmed,ended⟩ := isStructural_iff.1 structural
  obtain ⟨indent,white,shape⟩ := indent_trimLeft body
  rw [trimmed] at shape
  have plain : ∀ c ∈ indent, isNameStart c = false := fun c inside =>
    isNameStart_of_isBlank (List.all_eq_true.1 white c inside)
  refine ⟨indent,w,rest,shape,white,member,?_,?_⟩
  · unfold endsWord
    rw [changes.head (any_isAsciiWord_of_endsWord ended)]
    exact ended
  · rw [shape,changes.append_plain plain,restful.mapNames_keyword member ended]

theorem isStructural_mapNames {body : Text} (structural : isStructural body = true) :
    isStructural (mapNames (renamed x) [] body) = true := by
  obtain ⟨indent,w,rest,_,white,member,ended,new⟩ := restful.mapNames_structural structural
  rw [new]
  exact isStructural_of_shape white member ended

theorem mapNames_mapNames (body : Text) :
    mapNames (renamed x) [] (mapNames (renamed x) [] body) = mapNames (renamed x) [] body :=
  (changesRuns_mapNames (renamed x)).idem
    (fun w run => ⟨restful.run_renamed run,restful.renamed_renamed w⟩) body

/-- A dotted name that a package line may have comes from another one, and nothing changes behind it. -/
theorem name_of_mapNames {s name behind : Text} (shape : mapNames (renamed x) [] s = name ++ behind)
    (begins : name.head?.any isNameStart = true) (dotted : ∀ c ∈ name, isDotted c = true)
    (ended : behind.head?.any isDotted = false) (ends : isPackageEnd behind = true) :
    ∃ old, s = old ++ behind ∧ old.head?.any isNameStart = true ∧ ∀ c ∈ old, isDotted c = true := by
  have changes := changesRuns_mapNames (renamed x)
  have whole : s = s.takeWhile isDotted ++ s.dropWhile isDotted := List.takeWhile_append_dropWhile.symm
  have front : ∀ c ∈ s.takeWhile isDotted, isDotted c = true := fun c => List.all_eq_true.1 List.all_takeWhile c
  have stopped := head_dropWhile isDotted s
  generalize s.takeWhile isDotted = old at whole front
  generalize s.dropWhile isDotted = tail at whole stopped
  subst whole
  have apart : tail.head?.any isAsciiWord = false := by
    cases tail with
    | nil => rfl
    | cons c tail =>
      refine Bool.eq_false_iff.2 fun word => ?_
      exact Bool.false_ne_true (stopped.symm.trans (isDotted_of_isAsciiWord word))
  rw [changes.append old apart] at shape
  obtain ⟨first,second⟩ := append_inj_of_ended shape
    ((restful.worded.respelled_mapNames old).all_words front) dotted (by rwa [changes.head apart]) ended
  have kept : mapNames (renamed x) [] tail = tail := by
    refine changes.eq_self_of_changed (fun w run => restful.run_renamed run) ?_
    rw [second]
    exact isNameStart_of_isPackageEnd ends
  rw [kept] at second
  rw [← first] at begins
  exact ⟨old,by rw [second],changes.begins begins,front⟩

/-- A package line after the renames was one before, with the same parts around its name. -/
theorem packageLine_of_mapNames {body before name behind : Text} (structural : isStructural body = true)
    (shape : mapNames (renamed x) [] body = before ++ (name ++ behind))
    (line : PackageLine before name behind) :
    ∃ old, body = before ++ (old ++ behind) ∧ PackageLine before old behind := by
  have changes := changesRuns_mapNames (renamed x)
  obtain ⟨indent_,v,rest,whole,white_,word,stopped,new⟩ := restful.mapNames_structural structural
  obtain ⟨⟨indent,w,gap,same,white,member,blank_,some_⟩,begins,dotted,ended,ends⟩ := line
  have dark : (name ++ behind).head?.any isBlank = false := by
    cases name with
    | nil => cases begins
    | cons c name => exact isBlank_of_isDotted (dotted c (by simp))
  -- The two readings are cut alike: behind the blanks, behind the word and behind the blanks again.
  have first : indent_ ++ (v ++ mapNames (renamed x) [] rest) = indent ++ (w ++ (gap ++ (name ++ behind))) := by
    rw [← new,shape,same]
    simp
  obtain ⟨rfl,second⟩ := append_inj_of_ended first (List.all_eq_true.1 white_) (List.all_eq_true.1 white)
    (dark_structuralWord word _) (dark_structuralWord (packageWord_shape member).1 _)
  obtain ⟨rfl,third⟩ := word_unique word member second stopped (endsWord_append blank_ some_)
  obtain ⟨fronts,bright⟩ := changes.front (fun w run => restful.run_renamed run)
    (fun c => isNameStart_of_isBlank (c := c)) rest
  have split_ : rest = rest.takeWhile isBlank ++ rest.dropWhile isBlank := List.takeWhile_append_dropWhile.symm
  rw [split_,fronts] at third
  obtain ⟨blanks,fourth⟩ := append_inj_of_ended third
    (fun c => List.all_eq_true.1 List.all_takeWhile c) (List.all_eq_true.1 blank_) bright dark
  obtain ⟨old,tail,begun,front⟩ := restful.name_of_mapNames fourth begins dotted ended ends
  refine ⟨old,?_,⟨indent_,v,gap,same,white,member,blank_,some_⟩,begun,front,ended,ends⟩
  rw [whole,split_,blanks,tail,same]
  simp

theorem leading_bySource? (source : Text) (filled : ((x.bySource? source).map Entry.space).getD [] ≠ []) :
    (((x.bySource? source).map Entry.space).getD []).head?.any isNameStart = true := by
  cases found : x.bySource? source with
  | none => simp [found] at filled
  | some e =>
    rw [found] at filled
    exact restful.leading e (of_bySource? found).1 filled

/-- Such a line comes to rest at once, and it is still such a line. -/
theorem restructureBody_rests (source : Text) {body : Text} (structural : isStructural body = true) :
    isStructural (restructureBody (x.bySource? source) x body) = true ∧
      restructureBody (x.bySource? source) x (restructureBody (x.bySource? source) x body) =
        restructureBody (x.bySource? source) x body := by
  have leading := restful.leading_bySource? source
  have dotted := restful.worded.space_bySource? source
  unfold restructureBody
  generalize ((x.bySource? source).map Entry.space).getD [] = space at leading dotted
  cases filled : space.isEmpty with
  | true => exact ⟨restful.isStructural_mapNames structural,restful.mapNames_mapNames body⟩
  | false =>
    simp only [Bool.false_eq_true,if_false]
    have begins := leading (by simpa using filled)
    cases found : packageLine? body with
    | some parts =>
      obtain ⟨before,behind⟩ := parts
      obtain ⟨name,rfl,line⟩ := packageLine?_shape found
      have new : PackageLine before space behind := ⟨line.front,begins,dotted,line.ended,line.ends⟩
      have again := new.parse
      dsimp only
      rw [List.append_assoc,again]
      exact ⟨new.structural,List.append_assoc _ _ _⟩
    | none =>
      refine ⟨restful.isStructural_mapNames structural,?_⟩
      dsimp only
      cases again : packageLine? (mapNames (renamed x) [] body) with
      | none => exact restful.mapNames_mapNames body
      | some parts =>
        obtain ⟨before,behind⟩ := parts
        obtain ⟨name,shape,line⟩ := packageLine?_shape again
        obtain ⟨old,same,line⟩ := restful.packageLine_of_mapNames structural shape line
        rw [same,line.parse] at found
        cases found

theorem run_given (source : Text) {w : Text} (run : IsRun isNameChar isNameChar w) :
    IsRun isNameChar isNameChar (given (longestFirst (x.renamesFor source)) w) := by
  by_cases same : given (longestFirst (x.renamesFor source)) w = w
  · rwa [same]
  · exact isRun_of_isIdentifier (restful.given_new same).1

theorem substitute_substitute (source s : Text) :
    substitute (longestFirst (x.renamesFor source)) (substitute (longestFirst (x.renamesFor source)) s) =
      substitute (longestFirst (x.renamesFor source)) s :=
  (changesRuns_substitute (restful.worded.named source)).idem
    (fun w run => ⟨restful.run_given source run,restful.given_given source w⟩) s

omit restful in
/-- Where a run of name characters is kept, a word at the beginning is kept with it. -/
theorem append_of_endsWord {w tail later name rest : Text} (ascii : ∀ c ∈ name, isAsciiWord c = true)
    (stopped : tail.head?.any isNameChar = false) (apart : later.head? = tail.head?)
    (shape : w ++ later = name ++ rest) (ended : endsWord rest = true) :
    ∃ old, w ++ tail = name ++ old ∧ endsWord old = true := by
  rcases List.append_eq_append_iff.1 shape with ⟨more,longer,behind⟩ | ⟨more,longer,behind⟩
  · cases more with
    | nil =>
      rw [List.nil_append] at behind
      refine ⟨tail,by rw [longer,List.append_nil],?_⟩
      unfold endsWord at ended ⊢
      rwa [← apart,behind]
    | cons d more =>
      have inside : isNameChar d = true := isNameChar_of_isAsciiWord (ascii d (by simp [longer]))
      rw [← apart,behind] at stopped
      exact absurd stopped (by simp [inside])
  · refine ⟨more ++ tail,by rw [longer,List.append_assoc],?_⟩
    unfold endsWord at ended ⊢
    rw [behind] at ended
    cases more with
    | nil => rwa [List.nil_append,apart] at ended
    | cons d more => exact ended

/-- A text begins with a word that lines are read by only if it did before the new names were put in. -/
theorem keyword_of_substitute (source : Text) {s name rest : Text} (known : name ∈ keywords)
    (shape : substitute (longestFirst (x.renamesFor source)) s = name ++ rest) (ended : endsWord rest = true) :
    ∃ old, s = name ++ old ∧ endsWord old = true := by
  have changes := changesRuns_substitute (restful.worded.named source)
  obtain ⟨begins,ascii⟩ := keyword_shape known
  have words : ∀ c ∈ name, isWord c = true := fun c inside => isWord_of_isAsciiWord (ascii c inside)
  have begun : s.head?.any isNameChar = true := by
    refine changes.begins ?_
    rw [shape]
    cases name with
    | nil => cases begins
    | cons c name => exact isNameChar_of_isAsciiWord (ascii c (by simp))
  cases s with
  | nil => cases begun
  | cons c r =>
    have run : IsRun isNameChar isNameChar (c :: r.takeWhile isNameChar) :=
      isRun_takeWhile (fun _ held => held) (by simpa using begun) r
    have stopped := head_dropWhile isNameChar r
    have whole : c :: r = (c :: r.takeWhile isNameChar) ++ r.dropWhile isNameChar := by simp
    generalize c :: r.takeWhile isNameChar = w at run whole
    generalize r.dropWhile isNameChar = tail at stopped whole
    rw [whole] at shape ⊢
    rw [changes.run w tail run stopped] at shape
    have apart := changes.head stopped
    by_cases same : given (longestFirst (x.renamesFor source)) w = w
    · rw [same] at shape
      exact append_of_endsWord ascii stopped apart shape ended
    · obtain ⟨identifier,other,_⟩ := restful.given_new same
      have plain : (substitute (longestFirst (x.renamesFor source)) tail).head?.any isWord = false := by
        rw [apart]
        cases tail with
        | nil => rfl
        | cons d tail =>
          have free : isNameChar d = false := by simpa using stopped
          exact (Bool.or_eq_false_iff.1 free).1
      have new := (append_inj_of_ended shape
        (fun d inside => isWord_of_isAsciiWord (Naming.words_of_isIdentifier identifier d inside)) words plain
        (not_any_isWord_of_endsWord ended)).1
      rw [new] at other
      exact absurd known other

theorem isStructural_of_substitute (source : Text) {line : Text}
    (structural : isStructural (substitute (longestFirst (x.renamesFor source)) line) = true) :
    isStructural line = true := by
  have changes := changesRuns_substitute (restful.worded.named source)
  have runs : ∀ w, IsRun isNameChar isNameChar w →
      IsRun isNameChar isNameChar (given (longestFirst (x.renamesFor source)) w) :=
    fun w run => restful.run_given source run
  obtain ⟨w,member,rest,trimmed,ended⟩ := isStructural_iff.1 structural
  obtain ⟨fronts,dark⟩ := changes.front runs (fun c => isNameChar_of_isBlank (c := c)) line
  have split_ : line = line.takeWhile isBlank ++ line.dropWhile isBlank := List.takeWhile_append_dropWhile.symm
  rw [split_,fronts,trimLeft_append List.all_takeWhile dark] at trimmed
  rw [split_]
  obtain ⟨mark,name,rfl,marked,known⟩ := structuralWord_shape member
  rcases marked with rfl | rfl
  · obtain ⟨old,same,ended⟩ := restful.keyword_of_substitute source known trimmed ended
    rw [same]
    exact isStructural_of_shape List.all_takeWhile member ended
  · obtain ⟨r,first,behind⟩ := changes.tail runs rfl trimmed
    obtain ⟨old,same,ended⟩ := restful.keyword_of_substitute source known behind ended
    rw [first,same]
    exact isStructural_of_shape List.all_takeWhile member ended

theorem newLine_structural (source : Text) {body brk : Text} (structural : isStructural body = true)
    (stopped : body.getLast?.any isReturnOrFeed = false) (feeds : ∀ c ∈ brk, isReturnOrFeed c = true) :
    x.newLine source (body ++ brk) = restructureBody (x.bySource? source) x body ++ brk ∧
      (restructureBody (x.bySource? source) x body).getLast?.any isReturnOrFeed = false := by
  have spelled := restful.worded.respelled_restructureBody source body
  obtain ⟨still,_⟩ := restful.restructureBody_rests source structural
  have last : (restructureBody (x.bySource? source) x body).getLast?.any isReturnOrFeed = false := by
    cases ends : (restructureBody (x.bySource? source) x body).getLast? with
    | none => rfl
    | some c =>
      refine Bool.eq_false_iff.2 fun feed => ?_
      have before := spelled.last_break (fun _ => isBreak_of_isDotted) (isBreak_of_isReturnOrFeed feed) ends
      rw [before] at stopped
      exact Bool.false_ne_true (stopped.symm.trans feed)
  obtain ⟨old,brk_⟩ := ending_append stopped feeds
  obtain ⟨new,_⟩ := ending_append last feeds
  have whole : isStructural (body ++ brk) = true := by rwa [← isStructural_dropEnding,old]
  have kept : isStructural (restructureBody (x.bySource? source) x body ++ brk) = true := by
    rwa [← isStructural_dropEnding,new]
  refine ⟨?_,last⟩
  unfold newLine nameLine
  rw [restructureLine_eq,whole,old,brk_,if_pos rfl,kept]
  rfl

/-- What is done to a line once is not done to it again. -/
theorem newLine_newLine (source line : Text) :
    x.newLine source (x.newLine source line) = x.newLine source line := by
  cases structural : isStructural line with
  | false =>
    have kept : x.newLine source line = substitute (longestFirst (x.renamesFor source)) line := by
      unfold newLine nameLine
      rw [restructureLine_eq,structural]
      simp [structural]
    have plain : isStructural (substitute (longestFirst (x.renamesFor source)) line) = false :=
      Bool.eq_false_iff.2 fun held =>
        Bool.false_ne_true (structural.symm.trans (restful.isStructural_of_substitute source held))
    have again := restful.substitute_substitute source line
    rw [kept]
    generalize substitute (longestFirst (x.renamesFor source)) line = new at plain again
    unfold newLine nameLine
    rw [restructureLine_eq,plain]
    simpa [plain] using again
  | true =>
    have feeds : ∀ c ∈ ending line, isReturnOrFeed c = true := fun c => Target.isReturnOrFeed_of_mem_ending
    have body : isStructural (dropEnding line) = true := by rwa [isStructural_dropEnding]
    obtain ⟨once,last⟩ := restful.newLine_structural source body (getLast_dropEnding line) feeds
    obtain ⟨still,rests⟩ := restful.restructureBody_rests source body
    obtain ⟨twice,_⟩ := restful.newLine_structural source still last feeds
    rw [dropEnding_append_ending] at once
    rw [once,twice,rests]

end NameIndex.Restful

namespace Renaming

/-- Files whose contents were changed stand in their order. -/
theorem sortedFiles_map {f : Text × Text → Text × Text} (paths : ∀ file, (f file).1 = file.1)
    (files : List (Text × Text)) : sortedFiles ((sortedFiles files).map f) = (sortedFiles files).map f := by
  have sorted : (sortedFiles files).Pairwise fun a b => ordered a.1 b.1 :=
    Ordered.pairwise_sort (fun a b => ordered_total a.1 b.1) (fun a b c => ordered_trans a.1 b.1 c.1) files
  have kept : ((sortedFiles files).map f).Pairwise fun a b => ordered a.1 b.1 := by
    refine List.pairwise_map.2 (sorted.imp fun {a b} before => ?_)
    rwa [paths a,paths b]
  exact Ordered.sort_eq_self kept

theorem changed_self (files : List (Text × Text)) : changed files files = [] := by
  induction files with
  | nil => rfl
  | cons file rest ih => simp [changed,ih]

/-- A target for which a second pass finds nothing to change needs at most two of them. -/
theorem apply_of_rests {target : Target} {x : NameIndex} {files once : List (Text × Text)}
    {paths : List Text} (first : pass target x files = some (once,paths))
    (rests : pass target x once = some (once,[])) {bound : Nat} (enough : 2 ≤ bound) :
    ∃ report, apply target x bound files = some report ∧ report.converged = true ∧ report.passes ≤ 2 ∧
      report.files = once := by
  obtain ⟨more,rfl⟩ := Nat.exists_eq_add_of_le' enough
  unfold apply
  rw [run,first]
  dsimp only
  split
  · exact ⟨_,rfl,rfl,by simp,rfl⟩
  · rw [run,rests]
    exact ⟨_,rfl,rfl,by simp,rfl⟩

end Renaming

namespace NameIndex
variable {x : NameIndex}

theorem Restful.newFile_newFile (restful : x.Restful) (file : Text × Text) :
    x.newFile (x.newFile file) = x.newFile file := by
  have lines_ := restful.worded.lines_newLine file.1 file.2
  have each : x.newLine file.1 ∘ x.newLine file.1 = x.newLine file.1 := by
    funext line
    rw [Function.comp_apply,restful.newLine_newLine]
  unfold newFile
  dsimp only
  rw [lines_,List.map_map,each]

theorem Restful.pass_pass (restful : x.Restful) (name extension : Text) (symbols : Symbols)
    (files : List (Text × Text)) :
    pass (.blocks name extension symbols) x ((sortedFiles files).map x.newFile) =
      some ((sortedFiles files).map x.newFile,[]) := by
  have again : ((sortedFiles files).map x.newFile).map x.newFile = (sortedFiles files).map x.newFile := by
    rw [List.map_map]
    exact List.map_congr_left fun file _ => restful.newFile_newFile file
  rw [restful.worded.pass_blocks,sortedFiles_map (f := x.newFile) (fun _ => rfl),again,changed_self]

end NameIndex

namespace Namer
variable {name extension : Text} {symbols : Symbols} {package : Option Text} {session : Option Session}
  {files : List (Text × Text)}

/-- The index of files whose paths are plain ones, if no type has the name of a word that lines are
read by. -/
theorem restful_index (ascii : ∀ f ∈ files, ∀ c ∈ f.1, c.toNat < 128)
    (identifiers : ∀ p, package = some p → ∀ part ∈ pieces '.' p, Naming.isIdentifier part = true)
    {line later : Line} {x : NameIndex}
    (built : ((Namer.mk (.blocks name extension symbols) package session).index files).run.run line =
      (.ok x,later))
    (quiet : ∀ e ∈ x.all, e.old ∉ keywords ∧ e.new ∉ keywords) : x.Restful := by
  have dotted : ∀ p, package = some p → ∀ c ∈ p, isDotted c = true := by
    intro p same c member
    by_cases point : c = '.'
    · rw [point]
      decide
    · obtain ⟨part,inside,here⟩ := mem_pieces member point
      exact isDotted_of_isAsciiWord (Naming.words_of_isIdentifier (identifiers p same part inside) c here)
  have worded := (obeys_index_worded dotted files).ok built
  have leading := (obeys_index_leading ascii identifiers).ok built
  have fresh := (obeys_index_fresh (Target.counts_blocks name extension symbols package) files).ok built
  refine ⟨worded,fun e inside renamed_ f there same => ?_,quiet,leading⟩
  have old := fresh.old_mem (fun g member => List.mem_map_of_mem member) there
  rw [← same] at old
  exact fresh.unused e inside renamed_ old

/-- A pass over the contents of the files leaves nothing to be done to a second one. -/
theorem apply_converges (ascii : ∀ f ∈ files, ∀ c ∈ f.1, c.toNat < 128)
    (identifiers : ∀ p, package = some p → ∀ part ∈ pieces '.' p, Naming.isIdentifier part = true)
    {line later : Line} {x : NameIndex}
    (built : ((Namer.mk (.blocks name extension symbols) package session).index files).run.run line =
      (.ok x,later))
    (quiet : ∀ e ∈ x.all, e.old ∉ keywords ∧ e.new ∉ keywords) (contents : List (Text × Text)) :
    ∃ once paths, pass (.blocks name extension symbols) x contents = some (once,paths) ∧
      pass (.blocks name extension symbols) x once = some (once,[]) ∧
        ∀ bound, 2 ≤ bound → ∃ report, apply (.blocks name extension symbols) x bound contents = some report ∧
          report.converged = true ∧ report.passes ≤ 2 ∧ report.files = once := by
  have restful := restful_index ascii identifiers built quiet
  have first := restful.worded.pass_blocks name extension symbols contents
  have rests := restful.pass_pass name extension symbols contents
  exact ⟨_,_,first,rests,fun bound enough => apply_of_rests first rests enough⟩

/-- Both types of two files change their names, and one of them goes to another namespace. -/
theorem apply_converges_insistent :
    let files : List (Text × Text) := [("a/b.src","package a\nimport C\nclass A : C\n"),
      ("a/c.src","namespace old.C \x7b\nclass C\n\x7d\n")]
    let renames : List (Text × Text) := [("A","A_1"),("C","A_1_1")]
    let target : Target := .blocks "plain" ".out" .braces
    let n : Namer := ⟨target,some "top",some (insistent "A_1")⟩
    ∃ x line, (n.index files).run.run {} = (.ok x,line) ∧ x.renames = renames ∧
      ∃ once paths, pass target x files = some (once,paths) ∧ pass target x once = some (once,[]) ∧
        ∀ bound, 2 ≤ bound → ∃ report, apply target x bound files = some report ∧
          report.converged = true ∧ report.passes ≤ 2 ∧ report.files = once := by
  intro files renames target n
  have low : ∀ f ∈ files, f.1.all (fun c => decide (c.toNat < 128)) = true := by decide
  have ascii : ∀ f ∈ files, ∀ c ∈ f.1, c.toNat < 128 := fun f inside c here =>
    of_decide_eq_true (List.all_eq_true.1 (low f inside) c here)
  have ran : (match ((n.index files).run.run {}).1 with
    | .ok x => decide (x.renames = renames ∧ ∀ e ∈ x.all, e.old ∉ keywords ∧ e.new ∉ keywords)
    | .error _ => false) = true := by decide +kernel
  cases same : (n.index files).run.run {} with
  | mk r line =>
    rw [same] at ran
    cases r with
    | ok x =>
      obtain ⟨renamed_,quiet⟩ := of_decide_eq_true ran
      exact ⟨x,line,rfl,renamed_,apply_converges ascii (by decide) same quiet files⟩
    | error e => cases ran

end Namer

end Recast
