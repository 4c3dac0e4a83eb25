/-
  ArtifactCourier.CommandLine.Switch
  ──────────────────────────────────────
  **The options and how they are spelled.**

  Nine options take a value and two are flags.  Every option has one long spelling that
  messages use; some have a second one with underscores.  `Switch.ofLong?` and
  `Switch.ofShort?` look spellings up.
-/
import ArtifactCourier.CommandLine.Options

namespace ArtifactCourier.CommandLine

/-- An option that takes a value. -/
inductive ValueOption where
  | bucketName
  | prefixToTar
  | plainPrefix
  | dirs
  | uploadDir
  | region
  | profile
  | workDir
  | config
deriving DecidableEq, Repr

namespace ValueOption

/-- All of them, in the order of the help text. -/
def all : List ValueOption :=
  [bucketName, prefixToTar, plainPrefix, dirs, uploadDir, region, profile, workDir, config]

/-- The long spelling that messages use, without its dashes. -/
def longName : ValueOption → String
  | bucketName => "bucket-name"
  | prefixToTar => "prefix-to-tar"
  | plainPrefix => "prefix"
  | dirs => "dirs"
  | uploadDir => "upload-dir"
  | region => "region"
  | profile => "profile"
  | workDir => "work-dir"
  | config => "config"

def longNames : ValueOption → List String
  | bucketName => ["bucket-name", "bucket_name"]
  | prefixToTar => ["prefix-to-tar", "prefix_to_tar"]
  | uploadDir => ["upload-dir", "upload_dir"]
  | workDir => ["work-dir", "work_dir"]
  | o => [o.longName]

/-- The word that stands for the value in messages. -/
def valueName : ValueOption → String
  | bucketName => "BUCKET_NAME"
  | prefixToTar => "PREFIX_TO_TAR"
  | plainPrefix => "PREFIX"
  | dirs => "DIRS"
  | uploadDir => "UPLOAD_DIR"
  | region => "REGION"
  | profile => "PROFILE"
  | workDir => "WORK_DIR"
  | config => "CONFIG"

def display (o : ValueOption) : String := "--" ++ o.longName ++ " <" ++ o.valueName ++ ">"

def about : ValueOption → String
  | bucketName => "Name of the S3 bucket (default: zk-p2p)"
  | prefixToTar => "Comma-separated prefixes of files to upload along with .gz and .tar.gz copies"
  | plainPrefix => "Comma-separated prefixes of files to upload without compression"
  | dirs => "Comma-separated list of directories to upload from"
  | uploadDir => "Key prefix inside the bucket"
  | region => "AWS region for S3 uploads"
  | profile => "AWS profile to use for S3 uploads"
  | workDir => "Parent directory for temporary compressed copies (default: system temp dir)"
  | config => "Path to configuration YAML file"

def isGiven (o : ValueOption) (options : Options) : Bool :=
  match o with
  | bucketName => options.bucketName.isSome
  | prefixToTar => options.prefixToTar.isSome
  | plainPrefix => options.plainPrefix.isSome
  | dirs => options.dirs.isSome
  | uploadDir => options.uploadDir.isSome
  | region => options.region.isSome
  | profile => options.profile.isSome
  | workDir => options.workDir.isSome
  | config => options.config.isSome

end ValueOption

/-- An option without a value. -/
inductive Flag where
  | verbose
  | help
deriving DecidableEq, Repr

/-- The long spelling of a flag, without its dashes. -/
def Flag.longName : Flag → String
  | verbose => "verbose"
  | help => "help"

/-- What an option's spelling refers to. -/
inductive Switch where
  | value (o : ValueOption)
  | flag (f : Flag)
deriving DecidableEq, Repr

namespace Switch

def ofLong? (name : String) : Option Switch :=
  if name = Flag.verbose.longName then some (.flag .verbose)
  else if name = Flag.help.longName then some (.flag .help)
  else (ValueOption.all.find? fun o => o.longNames.contains name).map .value

def ofShort? : Char → Option Switch
  | 'c' => some (.value .config)
  | 'v' => some (.flag .verbose)
  | 'h' => some (.flag .help)
  | _ => none

/-- Every long spelling refers to its option. -/
theorem ofLong?_of_mem {o : ValueOption} : ∀ name ∈ o.longNames, ofLong? name = some (.value o) := by
  cases o <;> decide

end Switch
end ArtifactCourier.CommandLine
