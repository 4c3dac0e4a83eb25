/-
  ArtifactCourier.Scratch
  ──────────────────────────────────────
  **Scratch directories.**

  The compressed copies of a file are made in a directory of their own, in the configured
  working directory or in the system's place for temporary files.  Its name has a chosen
  ending; where a name is taken the next one is tried, up to a bound.  The directory is
  taken away again however the work in it ends.  If the work fails, that failure is told,
  even if the directory cannot be taken away; if the work succeeds, it has to be taken
  away.
-/
import ArtifactCourier.Config
import ArtifactCourier.Session

namespace ArtifactCourier.Scratch

variable {σ : Type}

/-- The permission bits of a scratch directory: it is for its owner alone. -/
def mode : Nat := 0o700

/-- The name of a scratch directory with a chosen ending. -/
def name (suffix : RawText) : RawText := RawText.ofString Defaults.scratchDirPrefix ++ suffix

/-- The directory in which scratch directories are made. -/
def home (config : Config) (disk : FileSystem) : Path :=
  match config.workDir with
  | some dir => disk.absolute dir
  | none => disk.tempPath

def taken (disk : FileSystem) (dir : Path) : List RawText :=
  (disk.locate dir).toOption.elim [] disk.names

/-- How often another name is tried after the first one. -/
def retries : Nat := 0xFFFF

/-- Whether a directory cannot be made at a path because the name is taken. -/
def isTaken (disk : FileSystem) (path : Path) : Bool :=
  match disk.makeNode path fun parent => ⟨.directory [] parent, mode, 0⟩ with
  | .error .alreadyExists => true
  | _ => false

/-- The first path that is not taken, of those that are tried one after the other; the last
one that is tried, if all are taken.  Every ending is chosen in view of the names that are
known to be taken. -/
def draw (disk : FileSystem) (dir : Path) (suffix : List RawText → RawText) (more : Nat)
    (names : List RawText) : Path :=
  let next := name (suffix names)
  match isTaken disk (dir.join next), more with
  | true, more + 1 => draw disk dir suffix more (next :: names)
  | _, _ => dir.join next

/-- Where the next scratch directory is made. -/
def place (config : Config) (disk : FileSystem) (suffix : List RawText → RawText) : Path :=
  let dir := home config disk
  draw disk dir suffix retries (taken disk dir)

/-- What is said of the last path that was tried.  If that is taken too, all were. -/
def refusal (dir scratch : Path) : FileError → Problem
  | .alreadyExists => .scratchNamesTaken dir
  | e => .fileAt e scratch

def create (config : Config) : Work σ Path := do
  let s ← get
  let dir := place config s.disk s.suffix
  Work.onDisk do
    match (← get).makeNode dir fun parent => ⟨.directory [] parent, mode, 0⟩ with
    | .ok disk => set disk
    | .error e =>
      Disk.fail ⟨.scratchDirectory config.workDir, [refusal (home config s.disk) dir e]⟩
  pure dir

def close (dir : Path) : Work σ Unit :=
  Work.onDisk do
    match (← get).removeTree dir with
    | .ok disk => set disk
    | .error e => Disk.fail ⟨.removeScratch dir, [.fileAt e dir]⟩

/-- Takes a scratch directory away if that is possible. -/
def discard (dir : Path) : Work σ Unit :=
  modify fun s => { s with disk := (s.disk.removeTree dir).toOption.getD s.disk }

/-- **Work with a scratch directory.** -/
def use (config : Config) (work : Path → Work σ Unit) : Work σ Unit := do
  let dir ← create config
  Work.orElseCleanUp (work dir) (discard dir)
  close dir

end ArtifactCourier.Scratch
