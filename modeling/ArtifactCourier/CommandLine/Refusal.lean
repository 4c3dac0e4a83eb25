/-
  ArtifactCourier.CommandLine.Refusal
  ──────────────────────────────────────
  **Why a command line is not carried out.**

  A refusal names what is wrong with the words of the command line.  Asking for help
  ends the reading of the command line too and is one of the outcomes here.
-/
import ArtifactCourier.CommandLine.Switch

namespace ArtifactCourier.CommandLine

/-- A help text that can be asked for. -/
inductive HelpPage where
  /-- The whole program, a line for each option. -/
  | brief
  /-- The whole program, at length. -/
  | full
  /-- The command that writes a configuration. -/
  | initConfig
  /-- The command that shows help. -/
  | help
deriving DecidableEq, Repr

/-- Something that needs a value. -/
inductive Target where
  | option (o : ValueOption)
  /-- The path that follows `init-config`. -/
  | configPath
deriving DecidableEq, Repr

def Target.display : Target → String
  | option o => o.display
  | configPath => "[PATH]"

/-- Why the command line was not accepted. -/
inductive Refusal where
  /-- A word looks like an option, or follows all that is expected, and means nothing. -/
  | unknownArgument (shown : String)
  /-- A word stands where a command could stand and is none. -/
  | unknownCommand (shown : String)
  /-- A flag was given a value. -/
  | unexpectedValue (flag : Flag) (value : String)
  /-- A value is absent, or is empty and may not be. -/
  | missingValue (target : Target)
  /-- An option was given twice. -/
  | repeatedOption (o : ValueOption)
  /-- A flag was given twice. -/
  | repeatedFlag (f : Flag)
  /-- A value that has to be text is not. -/
  | notUtf8
  /-- Help was asked for. -/
  | help (page : HelpPage)
deriving DecidableEq, Repr

end ArtifactCourier.CommandLine
