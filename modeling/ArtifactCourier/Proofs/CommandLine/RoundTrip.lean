/-
  ArtifactCourier.Proofs.CommandLine.RoundTrip
  ──────────────────────────────────────
  **What is written on the command line is what is read from it.**

  The options are looked at as the set of things that they give.  Accepting one more thing adds
  it to the set and changes nothing else, and it is refused if its switch has been given before.
  So what some words come to depends neither on their order nor on their spelling.

    • `accept_eq_ok`, `accept_of_acceptable` — one thing more,
    • `acceptAll_eq_ok`, `acceptAll_of_acceptable` — all of them, by induction,
    • `parse_written` — the round trip, and that no option is given twice.
-/
import ArtifactCourier.Proofs.CommandLine.Spelling
import Mathlib.Data.List.Duplicate

namespace ArtifactCourier.CommandLine

/-! ## §1. What options give. -/

/-- The value of an option, as it is written. -/
def ValueOption.value? (o : ValueOption) (options : Options) : Option RawText :=
  match o with
  | bucketName => options.bucketName.map RawText.ofString
  | prefixToTar => options.prefixToTar.map RawText.ofString
  | plainPrefix => options.plainPrefix.map RawText.ofString
  | dirs => options.dirs.map RawText.ofString
  | uploadDir => options.uploadDir.map RawText.ofString
  | region => options.region.map RawText.ofString
  | profile => options.profile.map RawText.ofString
  | workDir => options.workDir.map Path.text
  | config => options.config.map Path.text

/-- Whether an option names a file; the others are texts. -/
def ValueOption.isPath : ValueOption → Bool
  | .workDir => true
  | .config => true
  | _ => false

/-- Whether `options` give something. -/
def Options.Gives (options : Options) : Given → Prop
  | .value o value => o.value? options = some value
  | .verbose => options.verbose = true

/-- What is given, without its value. -/
def Given.switch : Given → Switch
  | .value o _ => .value o
  | .verbose => .flag .verbose

/-- A value that its option can have: a text is text, and a path is not empty. -/
def Given.Acceptable : Given → Prop
  | .value o word => if o.isPath then word.bytes ≠ [] else word.isText = true
  | .verbose => True

/-- Whether `options` give something with this switch. -/
def Options.Has (options : Options) (s : Switch) : Prop :=
  ∃ g, options.Gives g ∧ g.switch = s

/-- The refusal of a switch that was given before. -/
def Switch.repeated : Switch → Refusal
  | .value o => .repeatedOption o
  | .flag f => .repeatedFlag f

variable {options options' : Options} {g : Given} {gs : List Given}

theorem isGiven_iff (o : ValueOption) (options : Options) :
    o.isGiven options = true ↔ options.Has (.value o) := by
  have some_iff : o.isGiven options = (o.value? options).isSome := by
    cases o <;> exact Option.isSome_map.symm
  rw [some_iff, Option.isSome_iff_exists]
  constructor
  · rintro ⟨value, h⟩
    exact ⟨.value o value, h, rfl⟩
  · rintro ⟨⟨_, value⟩ | _, h, same⟩
    · cases same
      exact ⟨value, h⟩
    · cases same

theorem verbose_iff : options.verbose = true ↔ options.Has (.flag .verbose) := by
  constructor
  · intro h
    exact ⟨.verbose, h, rfl⟩
  · rintro ⟨_ | _, h, same⟩
    · cases same
    · exact h

theorem Options.not_has_none (s : Switch) : ¬ Options.none.Has s := by
  rintro ⟨⟨o, value⟩ | _, h, -⟩
  · cases o <;> cases h
  · cases h

/-- A switch has one value. -/
theorem Options.Gives.inj {g' : Given} (h : options.Gives g) (h' : options.Gives g')
    (same : g.switch = g'.switch) : g = g' := by
  cases g <;> cases g' <;> cases same
  · exact congrArg _ (Option.some.inj (h.symm.trans h'))
  · rfl

/-- Texts are told apart by their bytes. -/
theorem ofString_injective : Function.Injective RawText.ofString := by
  intro s t h
  have same := congrArg RawText.toString? h
  rw [RawText.toString?_ofString, RawText.toString?_ofString] at same
  exact Option.some.inj same

/-- **Options are what they give**, and the command. -/
theorem Options.ext_of_gives (same : ∀ g, options.Gives g ↔ options'.Gives g)
    (command : options.command = options'.command) : options = options' := by
  have values : ∀ o : ValueOption, o.value? options = o.value? options' := fun o =>
    Option.ext fun value => same (.value o value)
  have verbose : options.verbose = options'.verbose := Bool.eq_iff_iff.mpr (same .verbose)
  have text : Function.Injective (Option.map RawText.ofString) :=
    Option.map_injective ofString_injective
  have path : Function.Injective (Option.map Path.text) :=
    Option.map_injective fun _ _ h => congrArg Path.mk h
  obtain ⟨_, _, _, _, _, _, _, _, _, _, _⟩ := options
  obtain ⟨_, _, _, _, _, _, _, _, _, _, _⟩ := options'
  rw [Options.mk.injEq]
  exact ⟨text (values .bucketName), text (values .prefixToTar), text (values .plainPrefix),
    text (values .dirs), text (values .uploadDir), text (values .region), text (values .profile),
    path (values .workDir), path (values .config), verbose, command⟩

/-! ## §2. One thing more. -/

theorem textValue_eq_ok {value : RawText} {s : String} (h : textValue value = .ok s) :
    value = RawText.ofString s := by
  unfold textValue at h
  split at h
  · next hs =>
    cases h
    exact (RawText.ofString_of_toString? hs).symm
  · cases h

theorem pathValue_eq_ok {target : Target} {value : RawText} {path : Path}
    (h : pathValue target value = .ok path) : path = ⟨value⟩ := by
  unfold pathValue at h
  split at h
  · cases h
  · cases h
    rfl

theorem map_eq_ok {α β : Type} {f : α → β} {x : Except Refusal α} {b : β}
    (h : x.map f = .ok b) : ∃ a, x = .ok a ∧ f a = b := by
  cases x with
  | error e => cases h
  | ok a => exact ⟨a, rfl, Except.ok.inj h⟩

/-- **Storing a value changes that value** and no other. -/
theorem store_eq_ok {o : ValueOption} {value : RawText}
    (h : o.store value options = .ok options') :
    (∀ o' : ValueOption,
      o'.value? options' = if o' = o then some value else o'.value? options) ∧
    options'.verbose = options.verbose ∧ options'.command = options.command := by
  cases o with
  | workDir | config =>
    obtain ⟨path, hpath, rfl⟩ := map_eq_ok h
    obtain rfl := pathValue_eq_ok hpath
    exact ⟨fun o' => by cases o' <;> rfl, rfl, rfl⟩
  | _ =>
    obtain ⟨s, hs, rfl⟩ := map_eq_ok h
    obtain rfl := textValue_eq_ok hs
    exact ⟨fun o' => by cases o' <;> rfl, rfl, rfl⟩

/-- An acceptable value is stored. -/
theorem exists_store {o : ValueOption} {value : RawText} (h : (Given.value o value).Acceptable)
    (options : Options) : ∃ options', o.store value options = .ok options' := by
  cases o with
  | workDir | config =>
    have nonempty : value.isEmpty = false := List.isEmpty_eq_false_iff.mpr h
    unfold ValueOption.store pathValue
    rw [nonempty]
    exact ⟨_, rfl⟩
  | _ =>
    obtain ⟨s, hs⟩ := Option.isSome_iff_exists.mp h
    unfold ValueOption.store textValue
    rw [hs]
    exact ⟨_, rfl⟩

/-- **What is accepted is given from then on**, and it was not given before. -/
theorem accept_eq_ok (h : accept g options = .ok options') :
    ¬ options.Has g.switch ∧ (∀ g', options'.Gives g' ↔ options.Gives g' ∨ g' = g) ∧
      options'.command = options.command := by
  cases g with
  | value o value =>
    unfold accept give at h
    dsimp only at h
    split at h
    · cases h
    next fresh =>
    rw [isGiven_iff] at fresh
    obtain ⟨values, verbose, command⟩ := store_eq_ok h
    refine ⟨fresh, fun g' => ?_, command⟩
    cases g' with
    | verbose => simp [Options.Gives, verbose]
    | value o' value' =>
      simp only [Options.Gives, values, Given.value.injEq]
      split
      · next same =>
        subst same
        have absent : ¬ o'.value? options = some value' := fun h => fresh ⟨.value o' value', h, rfl⟩
        simp [absent, eq_comm]
      · next other => simp [other]
  | verbose =>
    unfold accept at h
    dsimp only at h
    split at h
    · cases h
    next fresh =>
    rw [verbose_iff] at fresh
    cases h
    refine ⟨fresh, fun g' => ?_, rfl⟩
    cases g' with
    | verbose => simp [Options.Gives]
    | value o' value' =>
      have same : o'.value? { options with verbose := true } = o'.value? options := by
        cases o' <;> rfl
      simp [Options.Gives, same]

/-- **What is acceptable is accepted**, unless its switch has been given. -/
theorem accept_of_acceptable (h : g.Acceptable) (options : Options) :
    (options.Has g.switch ∧ accept g options = .error g.switch.repeated) ∨
      ∃ options', accept g options = .ok options' := by
  cases g with
  | value o value =>
    unfold accept give
    dsimp only
    split
    · next given => exact .inl ⟨(isGiven_iff o options).mp given, rfl⟩
    · exact .inr (exists_store h options)
  | verbose =>
    unfold accept
    dsimp only
    split
    · next given => exact .inl ⟨verbose_iff.mp given, rfl⟩
    · exact .inr ⟨_, rfl⟩

/-! ## §3. All of them. -/

/-- **What a line that is accepted gives**: every switch once, and nothing that was not there. -/
theorem acceptAll_eq_ok (h : acceptAll gs options = .ok options') :
    (gs.map Given.switch).Nodup ∧ (∀ g ∈ gs, ¬ options.Has g.switch) ∧
      (∀ g, options'.Gives g ↔ options.Gives g ∨ g ∈ gs) ∧
      options'.command = options.command := by
  induction gs generalizing options with
  | nil =>
    cases h
    simp
  | cons g gs ih =>
    rw [acceptAll] at h
    cases haccept : accept g options with
    | error e =>
      rw [haccept] at h
      cases h
    | ok next =>
      rw [haccept] at h
      obtain ⟨fresh, gives, command⟩ := accept_eq_ok haccept
      obtain ⟨nodup, others, all, command'⟩ := ih h
      -- What comes later is given for the first time after this one.
      have later : ∀ g' ∈ gs, ¬ options.Has g'.switch ∧ g'.switch ≠ g.switch := by
        intro g' hg'
        constructor
        · rintro ⟨k, hk, same⟩
          exact others g' hg' ⟨k, (gives k).mpr (.inl hk), same⟩
        · intro same
          exact others g' hg' ⟨g, (gives g).mpr (.inr rfl), same.symm⟩
      refine ⟨?_, ?_, ?_, command'.trans command⟩
      · rw [List.map_cons, List.nodup_cons]
        refine ⟨?_, nodup⟩
        intro hmem
        obtain ⟨g', hg', same⟩ := List.mem_map.mp hmem
        exact (later g' hg').2 same
      · rw [List.forall_mem_cons]
        exact ⟨fresh, fun g' hg' => (later g' hg').1⟩
      · intro g'
        rw [all, gives, List.mem_cons, or_assoc]

/-- **A line with acceptable values is accepted**, or it gives some switch again. -/
theorem acceptAll_of_acceptable (h : ∀ g ∈ gs, g.Acceptable) (options : Options) :
    (∃ options', acceptAll gs options = .ok options') ∨
      ∃ s, acceptAll gs options = .error s.repeated ∧
        (options.Has s ∧ s ∈ gs.map Given.switch ∨ (gs.map Given.switch).Duplicate s) := by
  induction gs generalizing options with
  | nil => exact .inl ⟨options, rfl⟩
  | cons g gs ih =>
    obtain ⟨acceptable, others⟩ := List.forall_mem_cons.mp h
    rw [acceptAll]
    obtain ⟨given, refused⟩ | ⟨next, accepted⟩ := accept_of_acceptable acceptable options
    · rw [refused]
      exact .inr ⟨g.switch, rfl, .inl ⟨given, List.mem_cons_self⟩⟩
    rw [accepted]
    obtain ⟨-, gives, -⟩ := accept_eq_ok accepted
    obtain ⟨options', all⟩ | ⟨s, refused, twice⟩ := ih others next
    · exact .inl ⟨options', all⟩
    refine .inr ⟨s, refused, ?_⟩
    rw [List.map_cons]
    obtain ⟨⟨k, hk, rfl⟩, hmem⟩ | twice := twice
    · obtain before | rfl := (gives k).mp hk
      · exact .inl ⟨⟨k, before, rfl⟩, List.mem_cons_of_mem _ hmem⟩
      · exact .inr (.cons_mem hmem)
    · exact .inr (twice.duplicate_cons _)

/-! ## §4. The end of a line. -/

/-- The words that give a command, if there is one.  The path is optional, and the one that is
used by default is not written. -/
inductive WritesCommand : Option Command → List RawText → Prop
  | none : WritesCommand none []
  | byDefault : WritesCommand (some (.initConfig (Path.ofString Defaults.configFile)))
      [RawText.ofString Help.initConfigName]
  | path {path : RawText} : path.bytes ≠ [] → ¬ StartsWithDash path →
      WritesCommand (some (.initConfig ⟨path⟩)) [RawText.ofString Help.initConfigName, path]

/-- The options with a command, if there is one. -/
def Options.withCommand (options : Options) : Option Command → Options
  | .none => options
  | .some c => { options with command := some c }

theorem Options.gives_withCommand (command : Option Command) :
    (options.withCommand command).Gives g ↔ options.Gives g := by
  cases command with
  | none => exact Iff.rfl
  | some c =>
    cases g with
    | verbose => exact Iff.rfl
    | value o _ => cases o <;> exact Iff.rfl

theorem Options.command_withCommand (h : options.command = .none) (command : Option Command) :
    (options.withCommand command).command = command := by
  cases command with
  | none => exact h
  | some c => rfl

variable {p : Progress}

theorem parseFrom_initConfig (h : p.awaitsValue = false) (rest : List RawText) :
    parseFrom p (RawText.ofString Help.initConfigName :: rest) = (do
      let path ← initConfigPath false none rest
      let options ← p.settle
      .ok { options with command := some (.initConfig path) }) := by
  have command : (!p.awaitsValue && isCommand (RawText.ofString Help.initConfigName)) = true := by
    rw [h]
    decide
  have other : RawText.ofString Help.initConfigName ≠ RawText.ofString Help.helpName := by decide
  rw [parseFrom.eq_def]
  dsimp only
  rw [if_pos command, if_neg other]

/-- **A command does not touch the options** before it. -/
theorem parseFrom_command (h : p.awaitsValue = false) {command : Option Command}
    {words : List RawText} (hcommand : WritesCommand command words) :
    parseFrom p words = p.settle >>= fun options => .ok (options.withCommand command) := by
  cases hcommand with
  | none =>
    rw [parseFrom]
    cases p.settle <;> rfl
  | byDefault =>
    rw [parseFrom_initConfig h, initConfigPath]
    rfl
  | @path path nonempty plain =>
    have read : initConfigPath false none [path] = .ok ⟨path⟩ := by
      have some_bytes : path.isEmpty = false := List.isEmpty_eq_false_iff.mpr nonempty
      rw [initConfigPath, if_neg (by decide), ofWord_plain plain]
      dsimp only
      rw [initConfigPath, pathValue, some_bytes]
      rfl
    rw [parseFrom_initConfig h, read]
    rfl

section Unsettled

variable {e : Refusal}

theorem takeAttached_unsettled (h : p.settle = .error e) (o : ValueOption) (value : RawText) :
    p.takeAttached o value = .error e := by
  unfold Progress.takeAttached
  rw [h]
  rfl

theorem takeOpen_unsettled (h : p.settle = .error e) (o : ValueOption) :
    p.takeOpen o = .error e := by
  unfold Progress.takeOpen
  rw [h]
  rfl

theorem takeFlag_unsettled (h : p.settle = .error e) (f : Flag) (page : HelpPage) :
    p.takeFlag f page = .error e := by
  unfold Progress.takeFlag
  rw [h]
  rfl

theorem takeLong_unsettled (h : p.settle = .error e) (name : RawText) (attached : Option RawText) :
    ∃ e', p.takeLong name attached = .error e' := by
  unfold Progress.takeLong
  split
  · exact ⟨_, rfl⟩
  · split
    · exact ⟨e, takeAttached_unsettled h _ _⟩
    · exact ⟨e, takeOpen_unsettled h _⟩
  · split
    · exact ⟨_, rfl⟩
    · exact ⟨e, takeFlag_unsettled h _ _⟩

theorem takeShort_unsettled (h : p.settle = .error e) {letters : List UInt8} (some : letters ≠ []) :
    ∃ e', p.takeShort letters = .error e' := by
  obtain ⟨b, rest, rfl⟩ := List.exists_cons_of_ne_nil some
  rw [Progress.takeShort]
  split
  · exact ⟨_, rfl⟩
  split
  · exact ⟨_, rfl⟩
  · split
    · exact ⟨e, takeOpen_unsettled h _⟩
    · exact ⟨e, takeAttached_unsettled h _ _⟩
  · rw [takeFlag_unsettled h]
    exact ⟨e, rfl⟩

theorem letters_ne_nil {word letters : RawText} (h : Shape.ofWord word = .short letters) :
    letters.bytes ≠ [] := by
  unfold Shape.ofWord at h
  split at h
  · split at h
    · split at h <;> cases h
    · split at h
      · cases h
        exact List.cons_ne_nil _ _
      · cases h
  · cases h

/-- **What is to be refused is refused**, whatever words follow: a value that is not acceptable
is noticed when the reading goes on or ends, if nothing else is noticed before. -/
theorem parseFrom_unsettled (waits : p.awaitsValue = false) (h : p.settle = .error e)
    (words : List RawText) : ∃ e', parseFrom p words = .error e' := by
  cases words with
  | nil => exact ⟨e, by rw [parseFrom, h]⟩
  | cons word rest =>
    rw [parseFrom.eq_def]
    dsimp only
    split
    · split
      · exact ⟨_, rfl⟩
      · rw [h]
        cases initConfigPath false none rest <;> exact ⟨_, rfl⟩
    · split
      · split
        · exact ⟨e, h⟩
        · split <;> exact ⟨_, rfl⟩
      · obtain ⟨e', refused⟩ := takeLong_unsettled h _ _
        rw [refused]
        exact ⟨e', rfl⟩
      · next letters shape =>
        obtain ⟨e', refused⟩ := takeShort_unsettled h (letters_ne_nil shape)
        rw [refused]
        exact ⟨e', rfl⟩
      · split
        · next pending =>
          rw [Progress.awaitsValue, pending] at waits
          cases waits
        · exact ⟨_, rfl⟩

end Unsettled

/-! ## §5. The round trip. -/

/-- A switch is given once, so it is written once. -/
theorem nodup_switch (nodup : gs.Nodup) (same : ∀ g, g ∈ gs ↔ options.Gives g) :
    (gs.map Given.switch).Nodup := by
  apply nodup.map_on
  intro g hg g' hg' switch
  exact ((same g).mp hg).inj ((same g').mp hg') switch

/-- What options give is acceptable, if no path among it is empty. -/
theorem Options.Gives.acceptable (h : options.Gives g)
    (paths : ∀ path, options.workDir = some path ∨ options.config = some path →
      path.bytes ≠ []) : g.Acceptable := by
  cases g with
  | verbose => trivial
  | value o word =>
    cases o with
    | workDir =>
      obtain ⟨path, hpath, rfl⟩ := Option.map_eq_some_iff.mp h
      exact paths path (.inl hpath)
    | config =>
      obtain ⟨path, hpath, rfl⟩ := Option.map_eq_some_iff.mp h
      exact paths path (.inr hpath)
    | _ =>
      obtain ⟨s, -, rfl⟩ := Option.map_eq_some_iff.mp h
      exact congrArg Option.isSome (RawText.toString?_ofString s)

/-- **What some words come to**, with a command behind them. -/
theorem parse_append_command {words commandWords : List RawText} {command : Option Command}
    (h : Written gs words) (hcommand : WritesCommand command commandWords) :
    parse (words ++ commandWords)
      = acceptAll gs Options.none >>= fun options => .ok (options.withCommand command) := by
  have start : Progress.start.settle >>= acceptAll gs = acceptAll gs Options.none := rfl
  have reads := reads_written (p := .start) h rfl
  rw [start] at reads
  unfold parse
  obtain ⟨p, waits, settles, goesOn⟩ | ⟨e, refused, ended⟩ := reads
  · rw [← settles]
    exact (goesOn commandWords).trans (parseFrom_command waits hcommand)
  · rw [refused]
    exact ended commandWords

/-- **A line that gives a switch twice is refused**, whatever stands behind it. -/
theorem parse_append_of_not_nodup {words : List RawText} (h : Written gs words)
    (twice : ¬ (gs.map Given.switch).Nodup) (rest : List RawText) :
    ∃ e, parse (words ++ rest) = .error e := by
  obtain ⟨p, waits, settles, goesOn⟩ | ⟨e, -, ended⟩ := reads_written (p := .start) h rfl
  · cases hall : acceptAll gs Options.none with
    | ok options => exact absurd (acceptAll_eq_ok hall).1 twice
    | error e =>
      obtain ⟨e', refused⟩ := parseFrom_unsettled waits (settles.trans hall) rest
      exact ⟨e', (goesOn rest).trans refused⟩
  · exact ⟨e, ended rest⟩

/-- **The round trip.**  Words that write what some options give, in any order and in any
spelling, are read as these options, with the command that is behind them.  If they give a switch
twice, they are refused; and if their values are acceptable, that is the reason. -/
theorem parse_written {words commandWords : List RawText} {command : Option Command}
    (h : Written gs words) (hcommand : WritesCommand command commandWords) :
    (∀ options : Options, options.command = command → gs.Nodup →
      (∀ g, g ∈ gs ↔ options.Gives g) →
      (∀ path, options.workDir = some path ∨ options.config = some path → path.bytes ≠ []) →
      parse (words ++ commandWords) = .ok options) ∧
    (¬ (gs.map Given.switch).Nodup →
      (∀ rest, ∃ e, parse (words ++ rest) = .error e) ∧
      ((∀ g ∈ gs, g.Acceptable) → ∃ s, (gs.map Given.switch).Duplicate s ∧
        parse (words ++ commandWords) = .error s.repeated)) := by
  refine ⟨?_, fun twice => ⟨parse_append_of_not_nodup h twice, ?_⟩⟩
  · intro options hoptions nodup same paths
    rw [parse_append_command h hcommand]
    have acceptable : ∀ g ∈ gs, g.Acceptable := fun g hg => ((same g).mp hg).acceptable paths
    obtain ⟨read, hread⟩ | ⟨s, -, given | twice⟩ := acceptAll_of_acceptable acceptable Options.none
    · obtain ⟨-, -, gives, noCommand⟩ := acceptAll_eq_ok hread
      have result : read.withCommand command = options := by
        apply Options.ext_of_gives
        · intro g
          rw [Options.gives_withCommand, gives, same, or_iff_right]
          exact fun given => Options.not_has_none g.switch ⟨g, given, rfl⟩
        · rw [Options.command_withCommand noCommand, hoptions]
      rw [hread, ← result]
      rfl
    · exact absurd given.1 (Options.not_has_none s)
    · exact absurd (nodup_switch nodup same) twice.not_nodup
  · intro acceptable
    rw [parse_append_command h hcommand]
    obtain ⟨read, hread⟩ | ⟨s, refused, given | again⟩ :=
      acceptAll_of_acceptable acceptable Options.none
    · exact absurd (acceptAll_eq_ok hread).1 twice
    · exact absurd given.1 (Options.not_has_none s)
    · rw [refused]
      exact ⟨s, again, rfl⟩

/-- A value that looks like an option, an alias, a letter and a word of its own; and an option
that is given again under its other name. -/
theorem parse_written_mixed :
    parse (["--bucket_name=-a=b,", "-v", "--work-dir", "/x", "init-config", "p"].map
        RawText.ofString)
      = .ok { Options.none with
          bucketName := some "-a=b,", workDir := some (Path.ofString "/x"), verbose := true,
          command := some (.initConfig (Path.ofString "p")) } ∧
    parse (["--upload-dir", "a", "-v", "--upload_dir=b"].map RawText.ofString)
      = .error (.repeatedOption .uploadDir) := by
  have spelled (o : ValueOption) (name : String) (h : name ∈ o.longNames) (value : RawText) :
      Spells (.value o value) [RawText.ofString ("--" ++ name ++ "=") ++ value] := .equals h
  have apart (o : ValueOption) (name : String) (h : name ∈ o.longNames) (value : RawText)
      (plain : ¬ StartsWithDash value) :
      Spells (.value o value) [RawText.ofString ("--" ++ name), value] := .apart h plain
  constructor
  · have line : Written
        [.value .bucketName (RawText.ofString "-a=b,"), .verbose,
          .value .workDir (RawText.ofString "/x")]
        (["--bucket_name=-a=b,", "-v", "--work-dir", "/x"].map RawText.ofString) :=
      .cons (spelled .bucketName "bucket_name" (by decide) _) (.cons .shortVerbose
        (.cons (apart .workDir "work-dir" (by decide) _ (by decide)) .nil))
    have command : WritesCommand (some (.initConfig (Path.ofString "p")))
        (["init-config", "p"].map RawText.ofString) := .path (by decide) (by decide)
    refine (parse_written line command).1 _ rfl (by decide) ?_ ?_
    · rintro (⟨o, value⟩ | _)
      · cases o <;> simp [Options.Gives, ValueOption.value?, Options.none, Path.ofString, eq_comm]
      · simp [Options.Gives]
    · rintro path (h | h) <;> cases h
      decide
  · have line : Written
        [.value .uploadDir (RawText.ofString "a"), .verbose,
          .value .uploadDir (RawText.ofString "b")]
        (["--upload-dir", "a", "-v", "--upload_dir=b"].map RawText.ofString) :=
      .cons (apart .uploadDir "upload-dir" (by decide) _ (by decide)) (.cons .shortVerbose
        (.cons (spelled .uploadDir "upload_dir" (by decide) _) .nil))
    obtain ⟨s, twice, refused⟩ := ((parse_written line .none).2 (by decide)).2 (by
      simp [Given.Acceptable, ValueOption.isPath, RawText.isText])
    have switch : s = .value .uploadDir := by
      obtain h | h | h : s = .value .uploadDir ∨ s = .flag .verbose ∨ s = .value .uploadDir := by
        simpa [Given.switch] using twice.mem
      · exact h
      · subst h
        exact absurd (List.duplicate_iff_two_le_count.mp twice) (by decide)
      · exact h
    rw [switch, List.append_nil] at refused
    exact refused

end ArtifactCourier.CommandLine
