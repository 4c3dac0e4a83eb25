/-
  ArtifactCourier.Session
  ──────────────────────────────────────
  **A run, and what it does to the world.**

  A `Session` is all that a run can see and change: the disk, the object store, the record
  of what happened so far, and the counters.  `Work` is an action on a session that may
  fail; what it did before it failed stays done.
-/
import ArtifactCourier.Disk
import ArtifactCourier.Log
import ArtifactCourier.Store.Request

namespace ArtifactCourier

/-! ## §1. The record. -/

/-- Something that happened during a run. -/
inductive Event where
  /-- A line was logged. -/
  | log (line : Log.Line)
  /-- The content of a file was handed over, to be stored under a key. -/
  | handedOver (key : String) (file : Path) (content : ByteArray)
  /-- The upload of a file to a key began. -/
  | uploading (key : String) (file : Path)
  /-- A request was sent. -/
  | request (r : Store.Request)

/-- The counters of a walk. -/
structure Report where
  /-- Directories that were entered. -/
  directories : Nat
  /-- Entries that were listed. -/
  entries : Nat
  /-- Files that were published with their compressed forms. -/
  tarCandidates : Nat
  /-- Files that were published as they are. -/
  plainCandidates : Nat
  /-- Uploads that succeeded. -/
  uploads : Nat
deriving DecidableEq, Repr

def Report.zero : Report := ⟨0, 0, 0, 0, 0⟩

def Report.addDirectory (r : Report) : Report := { r with directories := r.directories + 1 }

def Report.addEntry (r : Report) : Report := { r with entries := r.entries + 1 }

def Report.addTarCandidate (r : Report) : Report :=
  { r with tarCandidates := r.tarCandidates + 1 }

def Report.addPlainCandidate (r : Report) : Report :=
  { r with plainCandidates := r.plainCandidates + 1 }

def Report.addUpload (r : Report) : Report := { r with uploads := r.uploads + 1 }

/-! ## §2. Sessions. -/

/-- The state of a run; `σ` is the state of the object store. -/
structure Session (σ : Type) where
  disk : FileSystem
  store : σ
  /-- What happened, in order. -/
  events : Array Event
  report : Report
  /-- Chooses the end of a scratch directory's name, given the names that are known to be taken. -/
  suffix : List RawText → RawText

namespace Session

/-- A session in which nothing has happened yet. -/
def start {σ : Type} (disk : FileSystem) (store : σ) (suffix : List RawText → RawText) :
    Session σ :=
  ⟨disk, store, #[], .zero, suffix⟩

def lines {σ : Type} (s : Session σ) : List Log.Line :=
  s.events.toList.filterMap fun e => match e with
    | .log line => some line
    | _ => none

end Session

/-- An action on a session. -/
abbrev Work (σ α : Type) : Type := ExceptT Failure (StateM (Session σ)) α

namespace Work

variable {σ α : Type}

/-- Runs an action: its outcome, and the session it leaves. -/
def perform (work : Work σ α) (s : Session σ) : Except Failure α × Session σ :=
  (ExceptT.run work).run s

def fail (f : Failure) : Work σ α := throw f

/-- Does something that always succeeds. -/
def step (f : Session σ → α × Session σ) : Work σ α := do
  let (a, s) := f (← get)
  set s
  pure a

def emit (e : Event) : Work σ Unit := modify fun s => { s with events := s.events.push e }

def log (line : Log.Line) : Work σ Unit := emit (.log line)

def count (f : Report → Report) : Work σ Unit := modify fun s => { s with report := f s.report }

/-- Does something to the disk. -/
def onDisk (action : Disk α) : Work σ α := do
  let s ← get
  let (result, disk) := action.perform s.disk
  set { s with disk := disk }
  match result with
  | .ok a => pure a
  | .error f => throw f

/-- Does something and, whether or not that fails, something that cannot fail after it; a
failure is passed on. -/
def orElseCleanUp (work : Work σ α) (cleanUp : Work σ Unit) : Work σ α :=
  tryCatch work fun f => do
    cleanUp
    throw f

end Work

/-! ## §3. Object stores. -/

/-- An object store, as a walk sees it. -/
structure ObjectStore (σ : Type) where
  /-- Stores the file that a path leads to under a key. -/
  upload : Path → String → Work σ Unit

end ArtifactCourier
