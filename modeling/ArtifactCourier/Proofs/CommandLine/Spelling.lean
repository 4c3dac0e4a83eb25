/-
  ArtifactCourier.Proofs.CommandLine.Spelling
  ──────────────────────────────────────
  **How options are written, and that they are read as written.**

  An option can be spelled in several ways: with or without underscores, with its value behind
  an equals sign or in a word of its own, and some of them with a single letter.  `Written` says
  which words spell which options.  Reading such words takes the options up one by one, whatever
  the spelling: `reads_written`.

  An option whose value is a word of its own is settled only when the reading goes on, so what
  is compared is not the progress itself but the options that it settles to.

    • `Given`, `Spells`, `Written` — what can be given, and how it is written,
    • `Reads` — what reading some words comes to,
    • `reads_spells` — one option, one case for each spelling,
    • `reads_written` — a whole line, by induction.
-/
import ArtifactCourier.CommandLine.Parser
import ArtifactCourier.Proofs.Path

namespace ArtifactCourier.CommandLine

/-! ## §1. Spellings. -/

/-- Something that a command line gives. -/
inductive Given where
  /-- An option with its value. -/
  | value (o : ValueOption) (value : RawText)
  | verbose
deriving DecidableEq

def StartsWithDash (word : RawText) : Prop := word.bytes.head? = some dash

instance (word : RawText) : Decidable (StartsWithDash word) :=
  inferInstanceAs (Decidable (_ = _))

/-- **The spellings of what is given.** -/
inductive Spells : Given → List RawText → Prop
  /-- `--name=value`, whatever the value. -/
  | equals {o : ValueOption} {name : String} {value : RawText} :
      name ∈ o.longNames →
      Spells (.value o value) [RawText.ofString ("--" ++ name ++ "=") ++ value]
  /-- `--name value`, if the value does not look like an option. -/
  | apart {o : ValueOption} {name : String} {value : RawText} :
      name ∈ o.longNames → ¬ StartsWithDash value →
      Spells (.value o value) [RawText.ofString ("--" ++ name), value]
  /-- `-c value`, under the same condition. -/
  | shortApart {value : RawText} :
      ¬ StartsWithDash value → Spells (.value .config value) [RawText.ofString "-c", value]
  /-- `-c=value` -/
  | shortEquals {value : RawText} :
      Spells (.value .config value) [RawText.ofString "-c=" ++ value]
  /-- `-cvalue`, if the value does not begin with an equals sign. -/
  | shortJoined {b : UInt8} {rest : List UInt8} :
      b ≠ equalsSign → Spells (.value .config ⟨b :: rest⟩) [RawText.ofString "-c" ++ ⟨b :: rest⟩]
  /-- `--verbose` -/
  | verbose : Spells .verbose [RawText.ofString "--verbose"]
  /-- `-v` -/
  | shortVerbose : Spells .verbose [RawText.ofString "-v"]

/-- **The words that give some things in order.**  In front of other letters, `v` needs no word
and no dash of its own. -/
inductive Written : List Given → List RawText → Prop
  | nil : Written [] []
  | cons {g : Given} {gs : List Given} {words rest : List RawText} :
      Spells g words → Written gs rest → Written (g :: gs) (words ++ rest)
  | bundle {gs : List Given} {letters : List UInt8} {rest : List RawText} :
      Shape.ofWord ⟨dash :: letters⟩ = .short ⟨letters⟩ → Written gs (⟨dash :: letters⟩ :: rest) →
      Written (.verbose :: gs) (⟨dash :: 0x76 :: letters⟩ :: rest)

/-! ## §2. The shapes of words. -/

theorem isCommand_of_dash {word : RawText} (h : StartsWithDash word) : isCommand word = false := by
  have initConfig : ¬ StartsWithDash (RawText.ofString Help.initConfigName) := by decide
  have help : ¬ StartsWithDash (RawText.ofString Help.helpName) := by decide
  unfold isCommand
  simp only [Bool.or_eq_false_iff, decide_eq_false_iff_not]
  exact ⟨fun same => initConfig (same ▸ h), fun same => help (same ▸ h)⟩

/-- What does not begin with a dash is a plain word. -/
theorem ofWord_plain {word : RawText} (h : ¬ StartsWithDash word) : Shape.ofWord word = .plain := by
  unfold StartsWithDash at h
  unfold Shape.ofWord
  split
  · next a b rest hbytes =>
    rw [hbytes] at h
    have other : a ≠ dash := fun same => h (congrArg some same)
    rw [if_neg fun both => other both.1, if_neg other]
  · rfl

/-- Two dashes and something behind them. -/
theorem ofWord_long {rest : List UInt8} (h : rest ≠ []) :
    Shape.ofWord ⟨dash :: dash :: rest⟩ = .long (splitAtEquals rest).1 (splitAtEquals rest).2 := by
  unfold Shape.ofWord
  dsimp only
  rw [if_pos ⟨rfl, rfl⟩, if_neg h]

/-- A dash and letters, of which the first is no dash. -/
theorem ofWord_short {b : UInt8} {rest : List UInt8} (h : b ≠ dash) :
    Shape.ofWord ⟨dash :: b :: rest⟩ = .short ⟨b :: rest⟩ := by
  unfold Shape.ofWord
  dsimp only
  rw [if_neg fun both => h both.2, if_pos rfl]

theorem splitAtEquals_append {name : List UInt8} (h : equalsSign ∉ name) (value : List UInt8) :
    splitAtEquals (name ++ equalsSign :: value) = (⟨name⟩, some ⟨value⟩) := by
  have other : ∀ b ∈ name, (b != equalsSign) = true := by
    intro b hb
    simp only [bne_iff_ne, ne_eq]
    rintro rfl
    exact h hb
  unfold splitAtEquals
  rw [List.dropWhile_append_of_pos other, List.takeWhile_append_of_pos other]
  simp

theorem splitAtEquals_of_notMem {name : List UInt8} (h : equalsSign ∉ name) :
    splitAtEquals name = (⟨name⟩, none) := by
  have nothing : name.dropWhile (· != equalsSign) = [] := by
    rw [← List.append_nil name, List.dropWhile_append_of_pos]
    · rfl
    · intro b hb
      simp only [bne_iff_ne, ne_eq]
      rintro rfl
      exact h hb
  unfold splitAtEquals
  rw [nothing]

/-- Long spellings are words, and have no equals sign. -/
theorem bytes_longName {o : ValueOption} : ∀ name ∈ o.longNames,
    (RawText.ofString name).bytes ≠ [] ∧ equalsSign ∉ (RawText.ofString name).bytes := by
  cases o <;> decide

/-- The bytes of a word with two dashes. -/
theorem bytes_long (name : String) :
    (RawText.ofString ("--" ++ name)).bytes = dash :: dash :: (RawText.ofString name).bytes := by
  rw [RawText.ofString_append]
  rfl

theorem ofWord_equals {o : ValueOption} {name : String} (h : name ∈ o.longNames)
    (value : RawText) :
    Shape.ofWord (RawText.ofString ("--" ++ name ++ "=") ++ value)
      = .long (RawText.ofString name) (some value) := by
  obtain ⟨-, noEquals⟩ := bytes_longName name h
  have bytes : RawText.ofString ("--" ++ name ++ "=") ++ value
      = ⟨dash :: dash :: ((RawText.ofString name).bytes ++ equalsSign :: value.bytes)⟩ := by
    have ending : (RawText.ofString "=").bytes = [equalsSign] := rfl
    apply congrArg RawText.mk
    rw [RawText.ofString_append, RawText.bytes_append, bytes_long, ending]
    simp
  rw [bytes, ofWord_long (by simp), splitAtEquals_append noEquals]

theorem ofWord_apart {o : ValueOption} {name : String} (h : name ∈ o.longNames) :
    Shape.ofWord (RawText.ofString ("--" ++ name)) = .long (RawText.ofString name) none := by
  obtain ⟨nonempty, noEquals⟩ := bytes_longName name h
  have bytes : RawText.ofString ("--" ++ name)
      = ⟨dash :: dash :: (RawText.ofString name).bytes⟩ := congrArg RawText.mk (bytes_long name)
  rw [bytes, ofWord_long nonempty, splitAtEquals_of_notMem noEquals]

theorem startsWithDash_long (name : String) (value : RawText) :
    StartsWithDash (RawText.ofString ("--" ++ name) ++ value) := by
  unfold StartsWithDash
  rw [RawText.bytes_append, bytes_long]
  rfl

/-! ## §3. Reading. -/

/-- **What a thing that is given does to the options.** -/
def accept (g : Given) (options : Options) : Except Refusal Options :=
  match g with
  | .value o value => give o (some value) options
  | .verbose =>
    if options.verbose then .error (.repeatedFlag .verbose)
    else .ok { options with verbose := true }

/-- **A reader of the words that are left comes to `r`**: either it goes on with progress that
settles to `r`, or it has ended with the refusal that `r` is. -/
def ComesTo (reader : List RawText → Except Refusal Options) (r : Except Refusal Options) : Prop :=
  (∃ p, p.awaitsValue = false ∧ p.settle = r ∧ ∀ rest, reader rest = parseFrom p rest) ∨
    ∃ e, r = .error e ∧ ∀ rest, reader rest = .error e

/-- **Reading some words** from `p` on comes to `r`, whatever follows them. -/
def Reads (p : Progress) (words : List RawText) (r : Except Refusal Options) : Prop :=
  ComesTo (fun rest => parseFrom p (words ++ rest)) r

variable {p : Progress} {word : RawText}

namespace ComesTo

variable {reader reader' : List RawText → Except Refusal Options} {r : Except Refusal Options}

/-- Progress that waits for no value comes to what it settles to. -/
theorem closed (h : p.awaitsValue = false) : ComesTo (parseFrom p) p.settle :=
  .inl ⟨p, h, rfl, fun _ => rfl⟩

/-- What is refused is refused, whatever follows. -/
theorem bind {α : Type} {x : Except Refusal α} {reader : α → List RawText → Except Refusal Options}
    {f : α → Except Refusal Options} (h : ∀ a, ComesTo (reader a) (f a)) :
    ComesTo (fun rest => x >>= fun a => reader a rest) (x >>= f) := by
  cases x with
  | error e => exact .inr ⟨e, rfl, fun _ => rfl⟩
  | ok a => exact h a

theorem congr (h : ComesTo reader r) (same : ∀ rest, reader' rest = reader rest) :
    ComesTo reader' r := by
  obtain rfl : reader' = reader := funext same
  exact h

end ComesTo

theorem Reads.nil (h : p.awaitsValue = false) : Reads p [] p.settle := .closed h

/-- **Words and then other words.** -/
theorem Reads.append {words words' : List RawText} {r : Except Refusal Options}
    {f : Options → Except Refusal Options} (first : Reads p words r)
    (second : ∀ p', p'.awaitsValue = false → p'.settle = r → Reads p' words' (r >>= f)) :
    Reads p (words ++ words') (r >>= f) := by
  obtain ⟨p', closed, settles, goesOn⟩ | ⟨e, rfl, ended⟩ := first
  · refine (second p' closed settles).congr fun rest => ?_
    rw [List.append_assoc]
    exact goesOn (words' ++ rest)
  · refine .inr ⟨e, rfl, fun rest => ?_⟩
    dsimp only
    rw [List.append_assoc]
    exact ended (words' ++ rest)

/-! ## §4. One option. -/

theorem parseFrom_long (h : StartsWithDash word) {name : RawText} {attached : Option RawText}
    (shape : Shape.ofWord word = .long name attached) (rest : List RawText) :
    parseFrom p (word :: rest) = p.takeLong name attached >>= fun next => parseFrom next rest := by
  rw [parseFrom.eq_def]
  dsimp only
  rw [isCommand_of_dash h, Bool.and_false, if_neg (by decide), shape]

theorem parseFrom_short {letters : List UInt8}
    (shape : Shape.ofWord ⟨dash :: letters⟩ = .short ⟨letters⟩) (rest : List RawText) :
    parseFrom p (⟨dash :: letters⟩ :: rest)
      = p.takeShort letters >>= fun next => parseFrom next rest := by
  have dashed : StartsWithDash ⟨dash :: letters⟩ := rfl
  rw [parseFrom.eq_def]
  dsimp only
  rw [isCommand_of_dash dashed, Bool.and_false, if_neg (by decide), shape]

/-- The word behind an option that waits for its value is the value. -/
theorem parseFrom_value {options : Options} {o : ValueOption} (h : ¬ StartsWithDash word)
    (rest : List RawText) :
    parseFrom ⟨options, some ⟨o, none⟩⟩ (word :: rest)
      = parseFrom ⟨options, some ⟨o, some word⟩⟩ rest := by
  have waits : (!(⟨options, some ⟨o, none⟩⟩ : Progress).awaitsValue && isCommand word) = false := rfl
  rw [parseFrom.eq_def]
  dsimp only
  rw [waits, if_neg (by decide), ofWord_plain h]

theorem takeLong_of_mem {o : ValueOption} {name : String} (h : name ∈ o.longNames)
    (attached : Option RawText) :
    p.takeLong (RawText.ofString name) attached =
      match attached with
      | some value => p.takeAttached o value
      | none => p.takeOpen o := by
  have known : (RawText.ofString name).toString?.bind Switch.ofLong? = some (.value o) := by
    rw [RawText.toString?_ofString, Option.bind_some, Switch.ofLong?_of_mem name h]
  unfold Progress.takeLong
  cases attached <;> simp only [known]

/-- Letters that begin with `c` end with a value or leave the option open. -/
theorem takeShort_config (rest : List UInt8) :
    p.takeShort (0x63 :: rest) =
      if rest = [] then p.takeOpen .config
      else p.takeAttached .config ⟨Progress.attachedToShort rest⟩ := by
  rw [Progress.takeShort]
  rfl

theorem takeShort_nil : p.takeShort [] = .ok p := by rw [Progress.takeShort]

theorem takeShort_verbose (rest : List UInt8) :
    p.takeShort (0x76 :: rest)
      = p.takeFlag .verbose .brief >>= fun next => next.takeShort rest := by
  rw [Progress.takeShort]
  rfl

/-- A flag is taken up at once. -/
theorem takeFlag_verbose (page : HelpPage) :
    p.takeFlag .verbose page
      = p.settle >>= fun options => accept .verbose options >>= fun next => .ok ⟨next, none⟩ := by
  unfold Progress.takeFlag accept
  cases p.settle with
  | error e => rfl
  | ok options => cases hverbose : options.verbose <;> simp [bind, Except.bind, hverbose]

/-- An option with its value attached is settled at once. -/
theorem reads_attached {o : ValueOption} {value : RawText}
    (h : ∀ rest, parseFrom p (word :: rest)
      = p.takeAttached o value >>= fun next => parseFrom next rest) :
    Reads p [word] (p.settle >>= accept (.value o value)) := by
  have taken : ComesTo (fun rest => p.settle >>= fun options =>
      give o (some value) options >>= fun next => parseFrom ⟨next, none⟩ rest)
      (p.settle >>= fun options => give o (some value) options >>= fun next =>
        (⟨next, none⟩ : Progress).settle) :=
    .bind fun options => .bind fun next => .closed rfl
  have settled : (fun options => give o (some value) options >>= fun next =>
      (⟨next, none⟩ : Progress).settle) = accept (.value o value) := by
    funext options
    show (give o (some value) options >>= fun next => Except.ok next) = give o (some value) options
    cases give o (some value) options <;> rfl
  rw [settled] at taken
  refine taken.congr fun rest => (h rest).trans ?_
  unfold Progress.takeAttached
  simp only [bind_assoc]
  rfl

/-- An option with its value in the next word is settled when the reading goes on. -/
theorem reads_apart {o : ValueOption} {value : RawText} (plain : ¬ StartsWithDash value)
    (h : ∀ rest, parseFrom p (word :: rest) = p.takeOpen o >>= fun next => parseFrom next rest) :
    Reads p [word, value] (p.settle >>= accept (.value o value)) := by
  have taken : ComesTo (fun rest => p.settle >>= fun options =>
      parseFrom ⟨options, some ⟨o, some value⟩⟩ rest)
      (p.settle >>= fun options => (⟨options, some ⟨o, some value⟩⟩ : Progress).settle) :=
    .bind fun options => .closed rfl
  refine taken.congr fun rest => (h (value :: rest)).trans ?_
  unfold Progress.takeOpen
  rw [bind_assoc]
  refine congrArg (p.settle >>= ·) (funext fun options => ?_)
  exact parseFrom_value plain rest

/-- **What is read behind a flag** is read with the flag taken up. -/
theorem reads_flag (page : HelpPage) (reader : Progress → List RawText → Except Refusal Options)
    {words : List RawText} {f : Options → Except Refusal Options}
    (h : ∀ rest, parseFrom p (words ++ rest)
      = p.takeFlag .verbose page >>= fun next => reader next rest)
    (behind : ∀ options, ComesTo (reader ⟨options, none⟩) (f options)) :
    Reads p words (p.settle >>= fun options => accept .verbose options >>= f) := by
  have taken : ComesTo (fun rest => p.settle >>= fun options =>
      accept .verbose options >>= fun next => reader ⟨next, none⟩ rest)
      (p.settle >>= fun options => accept .verbose options >>= f) :=
    .bind fun options => .bind behind
  refine taken.congr fun rest => (h rest).trans ?_
  rw [takeFlag_verbose]
  simp only [bind_assoc]
  rfl

/-- A flag that is a word of its own. -/
theorem reads_flag_alone (page : HelpPage)
    (h : ∀ rest, parseFrom p (word :: rest)
      = p.takeFlag .verbose page >>= fun next => parseFrom next rest) :
    Reads p [word] (p.settle >>= accept .verbose) := by
  have settled : (fun options => accept .verbose options >>= Except.ok) = accept .verbose := by
    funext options
    cases accept .verbose options <;> rfl
  rw [← settled]
  exact reads_flag page parseFrom h fun options => .closed rfl

/-- **One thing that is given, however it is spelled**, is accepted. -/
theorem reads_spells {g : Given} {words : List RawText} (h : Spells g words) :
    Reads p words (p.settle >>= accept g) := by
  cases h with
  | @equals o name value hname =>
    apply reads_attached
    intro rest
    have dashed : StartsWithDash (RawText.ofString ("--" ++ name ++ "=") ++ value) := by
      rw [String.append_assoc]
      exact startsWithDash_long _ _
    rw [parseFrom_long dashed (ofWord_equals hname value), takeLong_of_mem hname]
  | @apart o name value hname plain =>
    apply reads_apart plain
    intro rest
    have dashed : StartsWithDash (RawText.ofString ("--" ++ name)) := by
      unfold StartsWithDash
      rw [bytes_long]
      rfl
    rw [parseFrom_long dashed (ofWord_apart hname), takeLong_of_mem hname]
  | shortApart plain =>
    apply reads_apart plain
    intro rest
    have letters : RawText.ofString "-c" = ⟨dash :: [0x63]⟩ := by decide
    rw [letters, parseFrom_short (ofWord_short (by decide)), takeShort_config, if_pos rfl]
  | @shortEquals value =>
    apply reads_attached
    intro rest
    have letters : RawText.ofString "-c=" ++ value = ⟨dash :: 0x63 :: equalsSign :: value.bytes⟩ := by
      have front : RawText.ofString "-c=" = ⟨[dash, 0x63, equalsSign]⟩ := by decide
      rw [front]
      rfl
    rw [letters, parseFrom_short (ofWord_short (by decide)), takeShort_config, if_neg (by simp)]
    rfl
  | @shortJoined b value other =>
    apply reads_attached
    intro rest
    have letters : RawText.ofString "-c" ++ ⟨b :: value⟩ = ⟨dash :: 0x63 :: b :: value⟩ := by
      have front : RawText.ofString "-c" = ⟨[dash, 0x63]⟩ := by decide
      rw [front]
      rfl
    rw [letters, parseFrom_short (ofWord_short (by decide)), takeShort_config, if_neg (by simp),
      Progress.attachedToShort, if_neg other]
  | verbose =>
    apply reads_flag_alone .full
    intro rest
    have dashed : StartsWithDash (RawText.ofString "--verbose") := by decide
    have shape : Shape.ofWord (RawText.ofString "--verbose")
        = .long (RawText.ofString "verbose") none := by decide
    have known : Switch.ofLong? "verbose" = some (.flag .verbose) := by decide
    rw [parseFrom_long dashed shape, Progress.takeLong, RawText.toString?_ofString,
      Option.bind_some, known]
  | shortVerbose =>
    apply reads_flag_alone .brief
    intro rest
    have letters : RawText.ofString "-v" = ⟨dash :: [0x76]⟩ := by decide
    rw [letters, parseFrom_short (ofWord_short (by decide)), takeShort_verbose, bind_assoc]
    simp only [takeShort_nil]
    rfl

/-! ## §5. A whole line. -/

/-- Some things that are given, taken up in order. -/
def acceptAll : List Given → Options → Except Refusal Options
  | [], options => .ok options
  | g :: gs, options => accept g options >>= acceptAll gs

/-- **What is written is taken up, one thing after the other.** -/
theorem reads_written {gs : List Given} {words : List RawText} (h : Written gs words)
    (closed : p.awaitsValue = false) : Reads p words (p.settle >>= acceptAll gs) := by
  induction h generalizing p with
  | nil =>
    have nothing : p.settle >>= acceptAll [] = p.settle := by cases p.settle <;> rfl
    rw [nothing]
    exact .nil closed
  | @cons g gs words rest spells _ ih =>
    have split : p.settle >>= acceptAll (g :: gs) = (p.settle >>= accept g) >>= acceptAll gs :=
      (bind_assoc _ _ _).symm
    rw [split]
    apply (reads_spells spells).append
    intro p' closed' settles
    rw [← settles]
    exact ih closed'
  | @bundle gs letters rest shape _ ih =>
    -- Behind the letter the word is read as if it began there.
    refine reads_flag .brief
      (fun next after => parseFrom next (⟨dash :: letters⟩ :: rest ++ after)) ?_ ?_
    · intro after
      rw [List.cons_append, parseFrom_short (ofWord_short (by decide)), takeShort_verbose,
        bind_assoc]
      refine congrArg (p.takeFlag .verbose .brief >>= ·) (funext fun next => ?_)
      exact (parseFrom_short shape _).symm
    · intro options
      exact ih rfl

end ArtifactCourier.CommandLine
