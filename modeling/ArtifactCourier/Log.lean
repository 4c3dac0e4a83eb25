/-
  ArtifactCourier.Log
  ──────────────────────────────────────
  **Lines of the log.**

  What the courier tells while it works.  A line is data, so a law about the log is a
  law about lists of lines; `Line.level` and `Line.text` give what is shown.
-/
import ArtifactCourier.Path

namespace ArtifactCourier.Log

/-- How much a line matters. -/
inductive Level where
  | info
  | warn
deriving DecidableEq, Repr

def Level.label : Level → String
  | info => "INFO"
  | warn => "WARN"

/-- A line of the log. -/
inductive Line where
  | creatingConfig (path : Path)
  | savedConfig (path : Path)
  | noDirectories
  | noPrefixes
  | uploadingFrom (directories : Nat) (bucket : String)
  | uploadCompleted
  | scanning (dir : Path)
  | notRegular (path : Path)
  | matchesBoth (name : String)
  | startingUpload (name bucket key : String)
  | doneUploading (name : String)
  | compressingGzip (path : Path)
  | compressingTarGz (path : Path)
  | invalidRegion (name : String)
  | noHomeForProfile
  | abortFailed (key reason : String)
deriving DecidableEq, Repr

def Line.level : Line → Level
  | noDirectories | noPrefixes | notRegular _ | matchesBoth _ | invalidRegion _
  | noHomeForProfile | abortFailed _ _ => .warn
  | _ => .info

def Line.text : Line → String
  | creatingConfig path => "Creating default configuration file at " ++ path.display
  | savedConfig path => "Saved configuration to " ++ path.display
  | noDirectories => "No source directories configured, nothing will be uploaded"
  | noPrefixes => "No file prefixes configured, nothing will be uploaded"
  | uploadingFrom directories bucket =>
    "Uploading from " ++ toString directories ++ " directories to bucket " ++ bucket
  | uploadCompleted => "Upload completed"
  | scanning dir => "Scanning " ++ dir.display
  | notRegular path =>
    "Skipping " ++ path.display ++ ", matches a prefix but is not a regular file"
  | matchesBoth name => name ++ " matches both prefix sets and will be uploaded twice"
  | startingUpload name bucket key =>
    "Starting upload of " ++ name ++ " to s3://" ++ bucket ++ "/" ++ key ++ "..."
  | doneUploading name => "Done uploading " ++ name ++ "!"
  | compressingGzip path => "Compressing .gz: " ++ path.display
  | compressingTarGz path => "Compressing .tar.gz: " ++ path.display
  | invalidRegion name => "Invalid region '" ++ name ++ "', using default"
  | noHomeForProfile =>
    "Failed to create AWS profile provider: Failed to determine home directory., using default"
  | abortFailed key reason =>
    "Failed to abort multipart upload for " ++ key ++ ": " ++ reason

end ArtifactCourier.Log
