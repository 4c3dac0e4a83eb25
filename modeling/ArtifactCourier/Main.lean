/-
  ArtifactCourier.Main
  ──────────────────────────────────────
  **The command line program.**

  The outer layer copies the files that matter from the machine's disk to a fresh one, runs
  the program on that, shows what it shows, and writes the configuration that
  `init-config` made.  The files to be published are named on the standard input, one to a
  line.  There is no connection to an object store here, so every request fails.
-/
import ArtifactCourier.FileSystem.Fresh
import ArtifactCourier.Program

namespace ArtifactCourier.Main

/-- The variables that the program looks at. -/
def variableNames : List String :=
  ["HOME", "AWS_CONFIG_FILE", "AWS_SHARED_CREDENTIALS_FILE", "AWS_PROFILE", "AWS_DEFAULT_REGION",
   "AWS_REGION"]

def environment : IO Environment := do
  let found ← variableNames.mapM fun name => do
    pure ((← IO.getEnv name).map fun value => (name, value))
  pure ⟨found.filterMap id⟩

def emptyDisk : FileSystem := FileSystem.fresh (Path.ofString "/work") (Path.ofString "/tmp")

/-- The stamp of what is copied. -/
def stamp : FileSystem.Stamp := ⟨Node.fileMode, 0⟩

/-- The disk with the directory in which a path lies. -/
def withDirectory (path : Path) (disk : FileSystem) : FileSystem :=
  disk.applyEdits (path.parent?.toList.map (.makeDirectory · ⟨Node.directoryMode, 0⟩))

/-- Copies a file to the disk, if it can be read. -/
def copyIn (disk : FileSystem) (path : Path) : IO FileSystem := do
  match ← (IO.FS.readBinFile path.display).toBaseIO with
  | .ok bytes => pure ((withDirectory path disk).applyEdits [.write path (.ofBytes bytes) stamp])
  | .error _ => pure disk

/-- A service that cannot be reached. -/
def unreachable (_ : Region) : Store.Service Unit where
  answer _ s := (.error (.connection "no connection to the object store"), s)
  meanwhile _ _ disk := disk

/-- The end of the name of a scratch directory: one more letter than there are names. -/
def suffix (taken : List RawText) : RawText :=
  RawText.ofString (String.ofList (List.replicate (taken.length + 1) 'x'))

/-- The lines of the standard input; a file has fewer than `limit`. -/
def inputLines (input : IO.FS.Stream) : (limit : Nat) → IO (List String)
  | 0 => pure []
  | limit + 1 => do
    let line ← input.getLine
    if line.isEmpty then pure []
    else
      let rest ← inputLines input limit
      pure (String.ofList (line.toList.filter (· ≠ '\n')) :: rest)

/-- The files that options need from the machine's disk. -/
def filesFor (env : Environment) (options : CommandLine.Options) : IO (List Path) := do
  match options.command with
  | some _ => pure []
  | none =>
    let sources ← inputLines (← IO.getStdin) 0x100000000
    pure (options.config.toList ++ (Region.settingsPath? env).toList ++ sources.map Path.ofString)

/-- The disk on which a command line is carried out. -/
def diskFor (env : Environment) (words : List RawText) : IO FileSystem := do
  match CommandLine.parse words with
  | .error _ => pure emptyDisk
  | .ok options =>
    match options.command with
    | some (.initConfig path) => pure (withDirectory path emptyDisk)
    | none => (← filesFor env options).foldlM copyIn emptyDisk

/-- Writes the configuration that was made, if one was. -/
def copyOut (words : List RawText) (disk : FileSystem) : IO Unit := do
  match CommandLine.parse words with
  | .ok options =>
    match options.command with
    | some (.initConfig path) =>
      match disk.bytesAt path with
      | .ok bytes => IO.FS.writeBinFile path.display bytes
      | .error _ => pure ()
    | none => pure ()
  | .error _ => pure ()

end ArtifactCourier.Main

open ArtifactCourier in
/-- Runs the program and ends with its exit code. -/
def main (arguments : List String) : IO UInt32 := do
  let words := arguments.map RawText.ofString
  let env ← Main.environment
  let disk ← Main.diskFor env words
  let (shown, session) := Program.run env Main.unreachable words (Session.start disk () Main.suffix)
  Main.copyOut words session.disk
  (← IO.getStdout).putStr shown.output
  (← IO.getStderr).putStr shown.errors
  pure shown.exitCode.toUInt32
