/-
  ArtifactCourier.Region.Selection
  ──────────────────────────────────────
  **Which region and which credentials apply.**

  A region that is given by name applies if it is known.  Otherwise the surroundings
  decide: the first of two variables that is set, or else the user's settings file.  What
  they name without its being known stands for the fallback.
-/
import ArtifactCourier.Config
import ArtifactCourier.Environment
import ArtifactCourier.Region
import ArtifactCourier.Region.ConfigFile
import ArtifactCourier.Session

namespace ArtifactCourier.Region

variable {σ : Type}

def settingsPath? (env : Environment) : Option Path :=
  match env.nonempty? "AWS_CONFIG_FILE" with
  | some path => some (Path.ofString path)
  | none =>
    env.home?.map fun home =>
      (home.join (RawText.ofString ".aws")).join (RawText.ofString "config")

/-- The user's settings file, if it is a regular file that can be read. -/
def settings? (env : Environment) (disk : FileSystem) : Option ByteArray := do
  let path ← settingsPath? env
  let node ← (disk.stat path).toOption
  if node.isFile then (disk.bytesAt path).toOption else none

/-- The profile whose settings apply. -/
def settingsProfile (env : Environment) : String := (env.nonempty? "AWS_PROFILE").getD "default"

/-- The name of the region in the surroundings. -/
def surroundingName? (env : Environment) (disk : FileSystem) : Option String :=
  match (env.get? "AWS_DEFAULT_REGION").or (env.get? "AWS_REGION") with
  | some name => some name
  | none => do
    let bytes ← settings? env disk
    ConfigFile.value? (settingsProfile env) "region" bytes.toList

/-- The region that applies when none is given. -/
def ofSurroundings (env : Environment) (disk : FileSystem) : Region :=
  ((surroundingName? env disk).bind ofName?).getD fallback

/-- **The region of a run.**  A name that is not known is warned about. -/
def select (env : Environment) (name : Option String) : Work σ Region := do
  let default_ := ofSurroundings env (← get).disk
  match name with
  | none => pure default_
  | some name =>
    match ofName? name with
    | some r => pure r
    | none =>
      Work.log (.invalidRegion name)
      pure default_

/-- Whether it is known where the user's credentials are. -/
def hasCredentialsPath (env : Environment) : Bool :=
  (env.nonempty? "AWS_SHARED_CREDENTIALS_FILE").isSome || env.home?.isSome

/-- Warns if credentials of a profile are asked for and cannot be found. -/
def checkProfile (env : Environment) (profile : Option String) : Work σ Unit := do
  if profile.isSome && !hasCredentialsPath env then Work.log .noHomeForProfile

/-- **The region that a configuration asks for**, after all warnings about its client. -/
def ofConfig (env : Environment) (config : Config) : Work σ Region := do
  let region ← select env config.region
  checkProfile env config.profile
  pure region

end ArtifactCourier.Region
