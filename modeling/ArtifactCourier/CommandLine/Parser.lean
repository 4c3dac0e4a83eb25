/-
  ArtifactCourier.CommandLine.Parser
  ──────────────────────────────────────
  **Reading a command line.**

  Words are read from left to right.  An option whose value is a word of its own stays
  open until that word comes, and what it was given is checked only when the next option
  is taken up or the words end; so a later word that means nothing is reported before an
  earlier value that is not acceptable.  `Pending` is such an option, and
  `ValueOption.store` puts its value where it belongs.  A command ends the options: the
  words after it are the command's own.
-/
import ArtifactCourier.CommandLine.Help

namespace ArtifactCourier.CommandLine

/-! ## §1. Words. -/

/-- What a word looks like, before it is known where it stands. -/
inductive Shape where
  /-- Two dashes: only plain words follow. -/
  | escape
  /-- Two dashes and a name, with the value that an equals sign attaches. -/
  | long (name : RawText) (attached : Option RawText)
  /-- A dash and letters. -/
  | short (letters : RawText)
  /-- A command, a value or nothing known. -/
  | plain
deriving DecidableEq, Repr

def dash : UInt8 := 0x2D

def equalsSign : UInt8 := 0x3D

/-- What stands before the first equals sign, and what stands behind it if there is one. -/
def splitAtEquals (bytes : List UInt8) : RawText × Option RawText :=
  match bytes.dropWhile (· != equalsSign) with
  | [] => (⟨bytes⟩, none)
  | _ :: value => (⟨bytes.takeWhile (· != equalsSign)⟩, some ⟨value⟩)

/-- The shape of a word.  A single dash is a plain word. -/
def Shape.ofWord (word : RawText) : Shape :=
  match word.bytes with
  | a :: b :: rest =>
    if a = dash ∧ b = dash then
      if rest = [] then .escape
      else
        let (name, attached) := splitAtEquals rest
        .long name attached
    else if a = dash then .short ⟨b :: rest⟩
    else .plain
  | _ => .plain

/-! ## §2. Values. -/

def textValue (value : RawText) : Except Refusal String :=
  match value.toString? with
  | some s => .ok s
  | none => .error .notUtf8

/-- A value that names a file: any bytes, but some. -/
def pathValue (target : Target) (value : RawText) : Except Refusal Path :=
  if value.isEmpty then .error (.missingValue target) else .ok ⟨value⟩

/-- The options with `value` stored for `o`. -/
def ValueOption.store (o : ValueOption) (value : RawText) (options : Options) :
    Except Refusal Options :=
  match o with
  | .bucketName => (textValue value).map fun s => { options with bucketName := some s }
  | .prefixToTar => (textValue value).map fun s => { options with prefixToTar := some s }
  | .plainPrefix => (textValue value).map fun s => { options with plainPrefix := some s }
  | .dirs => (textValue value).map fun s => { options with dirs := some s }
  | .uploadDir => (textValue value).map fun s => { options with uploadDir := some s }
  | .region => (textValue value).map fun s => { options with region := some s }
  | .profile => (textValue value).map fun s => { options with profile := some s }
  | .workDir =>
    (pathValue (.option o) value).map fun p => { options with workDir := some p }
  | .config =>
    (pathValue (.option o) value).map fun p => { options with config := some p }

/-- Gives an option the value it was written with: refused if there is none, then if the
option already has one, then if the value is not acceptable. -/
def give (o : ValueOption) (value : Option RawText) (options : Options) :
    Except Refusal Options :=
  match value with
  | none => .error (.missingValue (.option o))
  | some v => if o.isGiven options then .error (.repeatedOption o) else o.store v options

/-- An option that was taken up and not yet given its value. -/
structure Pending where
  option : ValueOption
  /-- The word that followed the option, once it is there. -/
  value : Option RawText
deriving DecidableEq, Repr

/-- How far the reading has come. -/
structure Progress where
  /-- What was given so far. -/
  options : Options
  /-- The option whose value has not been checked yet. -/
  pending : Option Pending
deriving DecidableEq, Repr

namespace Progress

def start : Progress := ⟨Options.none, none⟩

/-- Whether the next plain word is the value of an option. -/
def awaitsValue (p : Progress) : Bool :=
  match p.pending with
  | some ⟨_, none⟩ => true
  | _ => false

/-- The options, with the pending one given its value. -/
def settle (p : Progress) : Except Refusal Options :=
  match p.pending with
  | some ⟨o, value⟩ => give o value p.options
  | none => .ok p.options

/-- Takes up an option whose value is attached to it. -/
def takeAttached (p : Progress) (o : ValueOption) (value : RawText) : Except Refusal Progress := do
  let options ← p.settle
  let options ← give o (some value) options
  .ok ⟨options, none⟩

/-- Takes up an option whose value is the next word. -/
def takeOpen (p : Progress) (o : ValueOption) : Except Refusal Progress := do
  let options ← p.settle
  .ok ⟨options, some ⟨o, none⟩⟩

/-- Takes up a flag; `page` is the help that `--help` asks for where it stands. -/
def takeFlag (p : Progress) (f : Flag) (page : HelpPage) : Except Refusal Progress := do
  let options ← p.settle
  match f with
  | .help => .error (.help page)
  | .verbose =>
    if options.verbose then .error (.repeatedFlag .verbose)
    else .ok ⟨{ options with verbose := true }, none⟩

def takeLong (p : Progress) (name : RawText) (attached : Option RawText) :
    Except Refusal Progress :=
  match name.toString?.bind Switch.ofLong? with
  | none => .error (.unknownArgument ("--" ++ name.lossy))
  | some (.value o) =>
    match attached with
    | some value => p.takeAttached o value
    | none => p.takeOpen o
  | some (.flag f) =>
    match attached with
    | some value => .error (.unexpectedValue f value.lossy)
    | none => p.takeFlag f .full

/-- The bytes of a value that is attached to a short option: an equals sign in front of it
is no part of it. -/
def attachedToShort : List UInt8 → List UInt8
  | b :: rest => if b = equalsSign then rest else b :: rest
  | [] => []

/-- Takes up the options of a word with one dash, letter by letter.  The letters of an option
that takes a value end the word: what is left is the value. -/
def takeShort (p : Progress) : List UInt8 → Except Refusal Progress
  | [] => .ok p
  | b :: rest =>
    let letter := RawText.front b rest
    match letter.1 with
    | none => .error (.unknownArgument ("-" ++ (RawText.mk (b :: rest)).lossy))
    | some c =>
      match Switch.ofShort? c with
      | none => .error (.unknownArgument ("-" ++ String.singleton c))
      | some (.value o) =>
        if rest = [] then p.takeOpen o else p.takeAttached o ⟨attachedToShort rest⟩
      | some (.flag f) => do
        let next ← p.takeFlag f .brief
        next.takeShort letter.2
termination_by letters => letters.length
decreasing_by
  have h := RawText.length_front_le b rest
  exact Nat.lt_succ_of_le h

end Progress

/-! ## §3. Commands. -/

def isCommand (word : RawText) : Bool :=
  word = RawText.ofString Help.initConfigName || word = RawText.ofString Help.helpName

/-- Reads the words behind `init-config`: one path at most, and help on request.  The path is
checked when help is asked for or the words end. -/
def initConfigPath : (escaped : Bool) → (path : Option RawText) → List RawText →
    Except Refusal Path
  | _, none, [] => .ok (Path.ofString Defaults.configFile)
  | _, some path, [] => pathValue .configPath path
  | escaped, path, word :: rest =>
    match if escaped then Shape.plain else Shape.ofWord word with
    | .escape => initConfigPath true path rest
    | .long name attached =>
      if name = RawText.ofString Flag.help.longName then
        match attached with
        | some value => .error (.unexpectedValue .help value.lossy)
        | none => do
          let _ ← path.mapM (pathValue .configPath)
          .error (.help .initConfig)
      else .error (.unknownArgument ("--" ++ name.lossy))
    | .short letters =>
      match letters.bytes with
      | [] => .error (.unknownArgument "-")
      | b :: after =>
        match RawText.front b after with
        | (some 'h', _) => do
          let _ ← path.mapM (pathValue .configPath)
          .error (.help .initConfig)
        | (some c, _) => .error (.unknownArgument ("-" ++ String.singleton c))
        | (none, _) => .error (.unknownArgument ("-" ++ letters.lossy))
    | .plain =>
      match path with
      | none => initConfigPath escaped (some word) rest
      | some _ => .error (.unknownArgument word.lossy)

/-- The help that the words behind `help` ask for. -/
def helpOn : List RawText → Refusal
  | [] => .help .full
  | word :: rest =>
    if word = RawText.ofString Help.initConfigName then
      match rest with
      | [] => .help .initConfig
      | next :: _ => .unknownCommand next.lossy
    else if word = RawText.ofString Help.helpName then
      match rest with
      | [] => .help .help
      | next :: _ => .unknownCommand next.lossy
    else .unknownCommand word.lossy

/-! ## §4. The whole command line. -/

/-- Reads the words from where `progress` has come. -/
def parseFrom (progress : Progress) : List RawText → Except Refusal Options
  | [] => progress.settle
  | word :: rest =>
    if !progress.awaitsValue && isCommand word then
      if word = RawText.ofString Help.helpName then .error (helpOn rest)
      else do
        let path ← initConfigPath false none rest
        let options ← progress.settle
        .ok { options with command := some (.initConfig path) }
    else
      match Shape.ofWord word with
      | .escape =>
        -- no word after two dashes has a place on the command line
        match rest with
        | [] => progress.settle
        | next :: _ =>
          if isCommand next then .error (.unknownArgument next.lossy)
          else .error (.unknownCommand next.lossy)
      | .long name attached => do
        let next ← progress.takeLong name attached
        parseFrom next rest
      | .short letters => do
        let next ← progress.takeShort letters.bytes
        parseFrom next rest
      | .plain =>
        match progress.pending with
        | some ⟨o, none⟩ => parseFrom ⟨progress.options, some ⟨o, some word⟩⟩ rest
        | _ => .error (.unknownCommand word.lossy)

/-- **Reads a command line**, without the name of the program. -/
def parse (words : List RawText) : Except Refusal Options := parseFrom .start words

end ArtifactCourier.CommandLine
