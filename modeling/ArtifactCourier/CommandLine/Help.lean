/-
  ArtifactCourier.CommandLine.Help
  ──────────────────────────────────────
  **The help texts, and the wording of refusals.**

  The pages are laid out from the option table: the brief page sets each option and its
  explanation in two columns, the full page puts the explanation on a line of its own.
-/
import ArtifactCourier.CommandLine.Refusal
import ArtifactCourier.Defaults

namespace ArtifactCourier.CommandLine.Help

def programName : String := "artifact-uploader"

/-- The name of the command that writes a configuration. -/
def initConfigName : String := "init-config"

def helpName : String := "help"

/-! ## §1. Rows. -/

/-- An option with its explanation. -/
structure Row where
  /-- The spellings, with the short one or its room in front. -/
  spelling : String
  about : String

def valueRow (o : ValueOption) : Row :=
  ⟨(if o = .config then "  -c, " else "      ") ++ o.display, o.about⟩

/-- The rows of the program's options, with the explanation of `--help` given. -/
def rows (aboutHelp : String) : List Row :=
  ValueOption.all.map valueRow
    ++ [⟨"  -v, --verbose", "Verbose logging"⟩, ⟨"  -h, --help", aboutHelp⟩]

/-- A text with spaces behind it, up to a width. -/
def pad (width : Nat) (s : String) : String :=
  s ++ String.ofList (List.replicate (width - s.length) ' ')

def columns (rows : List Row) : String :=
  let width := (rows.map (·.spelling.length)).foldl max 0 + 2
  String.join (rows.map fun r => pad width r.spelling ++ r.about ++ "\n")

/-- Rows with the explanation below the spelling and a line between rows. -/
def paragraphs (rows : List Row) : String :=
  "\n".intercalate (rows.map fun r => r.spelling ++ "\n          " ++ r.about ++ "\n")

/-! ## §2. Pages. -/

def aboutInitConfig : String := "Write the default configuration to a YAML file"

def aboutHelp : String := "Print this message or the help of the given subcommand(s)"

/-- How the program is called, and its commands. -/
def usage : String :=
  "Usage: " ++ programName ++ " [OPTIONS] [COMMAND]\n\nCommands:\n"
    ++ columns [⟨"  " ++ initConfigName, aboutInitConfig⟩, ⟨"  " ++ helpName, aboutHelp⟩]
    ++ "\nOptions:\n"

def text : HelpPage → String
  | .brief =>
    "Compress build artifacts and upload them to S3\n\n" ++ usage
      ++ columns (rows "Print help (see more with '--help')")
  | .full =>
    "Command-line arguments for the artifact uploader.\n\n"
      ++ "Every option is optional. Options left unset fall back to the YAML configuration "
      ++ "(when \x60--config\x60 is given) and then to the built-in defaults, so the fields here "
      ++ "stay \x60Option\x60s and the merge happens in [\x60crate::config::load_config\x60].\n\n"
      ++ usage ++ paragraphs (rows "Print help (see a summary with '-h')")
  | .initConfig =>
    aboutInitConfig ++ "\n\nUsage: " ++ programName ++ " " ++ initConfigName
      ++ " [PATH]\n\nArguments:\n  [PATH]  Path to output configuration file [default: "
      ++ Defaults.configFile ++ "]\n\nOptions:\n  -h, --help  Print help\n"
  | .help =>
    aboutHelp ++ "\n\nUsage: " ++ programName ++ " " ++ helpName
      ++ " [COMMAND]...\n\nArguments:\n  [COMMAND]...  Print help for the subcommand(s)\n"

end ArtifactCourier.CommandLine.Help

namespace ArtifactCourier.CommandLine

/-! ## §3. Refusals. -/

/-- Whether a character is shown: control characters are left out, apart from blank ones. -/
def isShown (c : Char) : Bool :=
  c.val ≥ 0x20 && c.val ≠ 0x7F || c = '\t' || c = '\n' || c = '\r' || c.val = 0x0C

/-- The first line of what is shown of a text. -/
def firstLine (text : String) : String :=
  let cs := text.toList.filter isShown
  let line := cs.takeWhile (· ≠ '\n')
  String.ofList (if line.getLast? = some '\r' ∧ line.length < cs.length then line.dropLast else line)

/-- The words that refuse a command line. -/
def Refusal.wording : Refusal → String
  | unknownArgument shown => "error: unexpected argument '" ++ shown ++ "' found"
  | unknownCommand shown => "error: unrecognized subcommand '" ++ shown ++ "'"
  | unexpectedValue flag value =>
    "error: unexpected value '" ++ value ++ "' for '--" ++ flag.longName
      ++ "' found; no more were expected"
  | missingValue target =>
    "error: a value is required for '" ++ target.display ++ "' but none was supplied"
  | repeatedOption o =>
    "error: the argument '" ++ o.display ++ "' cannot be used multiple times"
  | repeatedFlag f =>
    "error: the argument '--" ++ f.longName ++ "' cannot be used multiple times"
  | notUtf8 => "error: invalid UTF-8 was detected in one or more arguments"
  | help page => Help.text page

/-- **What is told about a refusal**: the first line of its wording, or the whole help page. -/
def Refusal.message : Refusal → String
  | help page => Help.text page
  | refusal => firstLine refusal.wording

end ArtifactCourier.CommandLine
