/-
  ArtifactCourier.Failure
  ──────────────────────────────────────
  **What can go wrong, and how it is told.**

  A `FileError` is the operating system's answer to a file operation that it
  refused.  A `Problem` is one thing the courier has to say about a failure, and a
  `Failure` is a chain of problems: the outermost first, its causes below it.
  Problems are data; the wording of all of them stands in `Problem.message`.
-/
import ArtifactCourier.Path

namespace ArtifactCourier

/-! ## §1. Refusals of the operating system. -/

/-- Why a file operation was refused. -/
inductive FileError where
  /-- Nothing has that name. -/
  | notFound
  /-- The device does not answer. -/
  | inputOutput
  /-- A socket cannot be opened. -/
  | noDevice
  /-- The name is taken. -/
  | alreadyExists
  /-- A step of the path, or the thing a trailing slash follows, is no directory. -/
  | notDirectory
  /-- A directory has no bytes to read or write. -/
  | isDirectory
  /-- The operation does not apply to this kind of file. -/
  | invalid
  /-- The device is full. -/
  | noSpace
  /-- A name has more than 255 bytes, or a path 4096 or more. -/
  | nameTooLong
  /-- The directory still has entries. -/
  | notEmpty
  /-- Symbolic links lead to each other without end. -/
  | linkLoop
  /-- The name for a socket is taken. -/
  | addressInUse
  /-- No path contains a NUL byte. -/
  | nulByte
deriving DecidableEq, Repr

/-- The number and the words by which the operating system reports a refusal. -/
def FileError.report : FileError → Option (Nat × String)
  | notFound => some (2, "No such file or directory")
  | inputOutput => some (5, "Input/output error")
  | noDevice => some (6, "No such device or address")
  | alreadyExists => some (17, "File exists")
  | notDirectory => some (20, "Not a directory")
  | isDirectory => some (21, "Is a directory")
  | invalid => some (22, "Invalid argument")
  | noSpace => some (28, "No space left on device")
  | nameTooLong => some (36, "File name too long")
  | notEmpty => some (39, "Directory not empty")
  | linkLoop => some (40, "Too many levels of symbolic links")
  | addressInUse => some (98, "Address already in use")
  | nulByte => none

/-- The text of a refusal: words and number, where the operating system was asked at all. -/
def FileError.message (e : FileError) : String :=
  match e.report with
  | some (code, words) => words ++ " (os error " ++ toString code ++ ")"
  | none => "file name contained an unexpected NUL byte"

/-! ## §2. Problems. -/

/-- Why a path cannot be the name of an archive member. -/
inductive MemberNameError where
  /-- Members have relative names. -/
  | absolute
  /-- Members stay below the directory they are unpacked in. -/
  | parentStep
  /-- Nothing is left of the name. -/
  | empty
  /-- The name does not fit its field. -/
  | tooLong
deriving DecidableEq, Repr

def MemberNameError.message : MemberNameError → String
  | absolute => "paths in archives must be relative"
  | parentStep => "paths in archives must not have \x60..\x60"
  | empty => "paths in archives must have at least one component"
  | tooLong => "provided value is too long"

/-- One statement about a failure. -/
inductive Problem where
  /-- A file operation was refused. -/
  | file (e : FileError)
  /-- A file operation on a path of the courier's own making was refused. -/
  | fileAt (e : FileError) (path : Path)
  /-- Bytes that should be text are not. -/
  | notUtf8
  /-- A file ended before the part that was to be read from it. -/
  | earlyEof
  | configNotFound (path : Path)
  | readConfig (path : Path)
  | parseConfig
  | serializeConfig
  /-- A path that should be written as text is not text. -/
  | pathNotUtf8
  | writeConfig (path : Path)
  | emptyBucket
  | readDirectory (dir : Path)
  | readEntry (dir : Path)
  | metadata (path : Path)
  | scratchDirectory (within : Option Path)
  /-- All the names that were tried for a scratch directory are taken. -/
  | scratchNamesTaken (dir : Path)
  | removeScratch (path : Path)
  | openToCompress (path : Path)
  | create (path : Path)
  | compress (path : Path)
  | finishGzip (path : Path)
  | flush (path : Path)
  | noFileName (path : Path)
  | addMember (path : Path)
  | finishTar (path : Path)
  | memberMetadata (e : FileError) (path : Path)
  | socketMember (path : Path)
  /-- A path was refused as a member name, after `stored` had been put into the field. -/
  | memberName (e : MemberNameError) (stored : RawText)
  | openToSend (path : Path)
  | send (path : Path) (bucket key reason : String)
  | startMultipart
  | noUploadId
  | openParts (path : Path)
  | readPart (number : Nat) (path : Path)
  | sendPart (number : Nat) (reason : String)
  | noETag
  | completeMultipart
  | partsAborted
  /-- What the object store said. -/
  | store (text : String)
deriving DecidableEq, Repr

/-- The lower-case hexadecimal digits of a number, without leading zeros. -/
def hexDigits (n : Nat) : String := String.ofList (Nat.toDigits 16 n)

/-- A character as a quoted path shows it: quotes, backslashes and control characters escaped. -/
def escapedChar (c : Char) : String :=
  if c = '"' then "\\\""
  else if c = '\\' then "\\\\"
  else if c = '\n' then "\\n"
  else if c = '\r' then "\\r"
  else if c = '\t' then "\\t"
  else if c.val = 0 then "\\0"
  else if c.val < 0x20 ∨ (0x7F ≤ c.val ∧ c.val < 0xA0) then
    "\\u\x7b" ++ hexDigits c.toNat ++ "\x7d"
  else String.singleton c

def Path.quoted (p : Path) : String :=
  "\"" ++ String.join (p.display.toList.map escapedChar) ++ "\""

/-- **The wording of every problem.** -/
def Problem.message : Problem → String
  | file e => e.message
  | fileAt e path => e.message ++ " at path " ++ path.quoted
  | notUtf8 => "stream did not contain valid UTF-8"
  | earlyEof => "early eof"
  | configNotFound path => "Config file not found: " ++ path.display
  | readConfig path => "Failed to read config file: " ++ path.display
  | parseConfig => "Failed to parse YAML config"
  | serializeConfig => "Failed to serialize config to YAML"
  | pathNotUtf8 => "path contains invalid UTF-8 characters"
  | writeConfig path => "Failed to write config to " ++ path.display
  | emptyBucket => "Bucket name must not be empty"
  | readDirectory dir => "Failed to read directory " ++ dir.display
  | readEntry dir => "Failed to read entry in " ++ dir.display
  | metadata path => "Failed to get metadata for " ++ path.display
  | scratchDirectory (some dir) => "Failed to create scratch directory in " ++ dir.display
  | scratchDirectory none => "Failed to create scratch directory"
  | scratchNamesTaken dir => "too many temporary files exist at path " ++ dir.quoted
  | removeScratch path => "Failed to remove scratch directory " ++ path.display
  | openToCompress path => "Failed to open " ++ path.display ++ " for compression"
  | create path => "Failed to create " ++ path.display
  | compress path => "Failed to compress " ++ path.display
  | finishGzip path => "Failed to finish gzip stream for " ++ path.display
  | flush path => "Failed to flush " ++ path.display
  | noFileName path => "Invalid file path - no filename component: " ++ path.display
  | addMember path => "Failed to add " ++ path.display ++ " to tar archive"
  | finishTar path => "Failed to finish tar archive " ++ path.display
  | memberMetadata e path => e.message ++ " when getting metadata for " ++ path.display
  | socketMember path => path.display ++ ": socket can not be archived"
  | memberName e stored => e.message ++ " when setting path for " ++ stored.lossy
  | openToSend path => "Failed to open " ++ path.display ++ " for S3 upload"
  | send path bucket key reason =>
    "Failed to upload " ++ path.display ++ " to s3://" ++ bucket ++ "/" ++ key ++ ": " ++ reason
  | startMultipart => "Failed to initialize multipart upload"
  | noUploadId => "No upload ID returned from S3"
  | openParts path => "Failed to open file for multipart upload: " ++ path.display
  | readPart number path =>
    "Failed to read part " ++ toString number ++ " of " ++ path.display
  | sendPart number reason => "Failed to upload part " ++ toString number ++ ": " ++ reason
  | noETag => "No ETag in upload part response"
  | completeMultipart => "Failed to complete multipart upload"
  | partsAborted => "Part upload failed, multipart upload aborted"
  | store text => text

/-! ## §3. Failures. -/

/-- A failure: what failed, and what that came from. -/
structure Failure where
  /-- The outermost statement. -/
  problem : Problem
  /-- The causes below it, the nearest first. -/
  causes : List Problem
deriving DecidableEq, Repr

namespace Failure

/-- A failure that says one thing. -/
def ofProblem (p : Problem) : Failure := ⟨p, []⟩

/-- A refused file operation. -/
def ofFile (e : FileError) : Failure := ⟨.file e, []⟩

/-- The same failure, told as the cause of a larger one. -/
def within (f : Failure) (p : Problem) : Failure := ⟨p, f.problem :: f.causes⟩

def message (f : Failure) : String := f.problem.message

/-- The texts of the causes, the nearest first. -/
def causeTexts (f : Failure) : List String := f.causes.map Problem.message

end Failure

/-- The result of an operation, with a failure of it told as the cause of `p`. -/
def during {α : Type} (p : Problem) (result : Except Failure α) : Except Failure α :=
  result.mapError (·.within p)

end ArtifactCourier
