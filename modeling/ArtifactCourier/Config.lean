/-
  ArtifactCourier.Config
  ──────────────────────────────────────
  **What a run needs to know.**

  A configuration is built once, in three layers: the built-in defaults, the fields of
  the configuration file, the options of the command line.  Each later layer replaces
  whole fields.  `overlay` is the last layer, `validate` refuses what cannot work.

    • `overlay_idem` — overlaying the same options again changes nothing.
-/
import ArtifactCourier.CommandLine.Options
import ArtifactCourier.Defaults
import ArtifactCourier.Failure
import ArtifactCourier.Log
import ArtifactCourier.Text.CommaList

namespace ArtifactCourier

/-- The settings of a run. -/
structure Config where
  /-- The bucket that artifacts go to. -/
  bucket : String
  /-- Files whose names start with one of these are also published compressed. -/
  tarPrefixes : List String
  /-- Files whose names start with one of these are published as they are. -/
  plainPrefixes : List String
  /-- The directories whose files are published, in order. -/
  dirs : List Path
  /-- What stands before the slash in every key. -/
  uploadDir : String
  /-- The region of the bucket, if it is given. -/
  region : Option String
  /-- The credentials profile, if it is given. -/
  profile : Option String
  /-- Where scratch directories are made, if not in the system's place. -/
  workDir : Option Path
deriving DecidableEq, Repr

namespace Config

def default : Config where
  bucket := Defaults.bucket
  tarPrefixes := Defaults.tarPrefixes
  plainPrefixes := Defaults.plainPrefixes
  dirs := []
  uploadDir := ""
  region := none
  profile := none
  workDir := none

instance : Inhabited Config := ⟨default⟩

/-! ## §1. The command line's layer. -/

/-- The configuration with every option that was given in place of its field. -/
def overlay (c : Config) (o : CommandLine.Options) : Config where
  bucket := o.bucketName.getD c.bucket
  tarPrefixes := (o.prefixToTar.map Text.splitList).getD c.tarPrefixes
  plainPrefixes := (o.plainPrefix.map Text.splitList).getD c.plainPrefixes
  dirs := (o.dirs.map fun value => (Text.splitList value).map Path.ofString).getD c.dirs
  uploadDir := o.uploadDir.getD c.uploadDir
  region := o.region.or c.region
  profile := o.profile.or c.profile
  workDir := o.workDir.or c.workDir

/-- Overlaying the same options again changes nothing. -/
theorem overlay_idem (c : Config) (o : CommandLine.Options) :
    (c.overlay o).overlay o = c.overlay o := by
  simp only [overlay, mk.injEq]
  cases o.bucketName <;> cases o.prefixToTar <;> cases o.plainPrefix <;> cases o.dirs
    <;> cases o.uploadDir <;> cases o.region <;> cases o.profile <;> cases o.workDir <;> simp

/-! ## §2. Validation. -/

/-- What a configuration without sources or prefixes is warned about. -/
def warnings (c : Config) : List Log.Line :=
  (if c.dirs.isEmpty then [.noDirectories] else [])
    ++ (if c.tarPrefixes.isEmpty && c.plainPrefixes.isEmpty then [.noPrefixes] else [])

/-- Whether nothing is left of the bucket's name once its blanks are trimmed. -/
def bucketIsBlank (c : Config) : Bool := (Text.trim c.bucket.toList).isEmpty

/-- The warnings about a usable configuration; the refusal of one without a bucket. -/
def validate (c : Config) : Except Failure (List Log.Line) :=
  if c.bucketIsBlank then .error (.ofProblem .emptyBucket) else .ok c.warnings

end Config
end ArtifactCourier
