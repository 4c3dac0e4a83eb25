/-
  ArtifactCourier.CommandLine.Options
  ──────────────────────────────────────
  **What a command line can say.**

  Every option may be left out; what is left out is `none` here and is filled in from
  the configuration file and the defaults later.
-/
import ArtifactCourier.Path

namespace ArtifactCourier.CommandLine

/-- What is to be done instead of a run. -/
inductive Command where
  /-- Write the default configuration to `path`. -/
  | initConfig (path : Path)
deriving DecidableEq, Repr

/-- The values of the options, and the subcommand. -/
structure Options where
  bucketName : Option String
  prefixToTar : Option String
  plainPrefix : Option String
  dirs : Option String
  uploadDir : Option String
  region : Option String
  profile : Option String
  workDir : Option Path
  config : Option Path
  verbose : Bool
  command : Option Command
deriving DecidableEq, Repr

/-- The command line that says nothing. -/
def Options.none : Options where
  bucketName := Option.none
  prefixToTar := Option.none
  plainPrefix := Option.none
  dirs := Option.none
  uploadDir := Option.none
  region := Option.none
  profile := Option.none
  workDir := Option.none
  config := Option.none
  verbose := false
  command := Option.none

end ArtifactCourier.CommandLine
