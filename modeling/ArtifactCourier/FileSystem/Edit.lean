/-
  ArtifactCourier.FileSystem.Edit
  ──────────────────────────────────────
  **Changes that others make to a disk.**

  The courier is not alone on its machine: a build writes files while they are being
  sent.  An `Edit` is one such change, told by what the file is afterwards.
-/
import ArtifactCourier.FileSystem.Operations

namespace ArtifactCourier.FileSystem

/-- Permission bits and time that a file is given. -/
structure Stamp where
  mode : Nat
  mtime : Int
deriving DecidableEq, Repr

/-- One change to a disk. -/
inductive Edit where
  /-- Writes a file anew. -/
  | write (path : Path) (content : Content) (stamp : Stamp)
  /-- Makes a directory, with those above it; one that is there stays. -/
  | makeDirectory (path : Path) (stamp : Stamp)
  /-- Cuts a file off, or makes it longer. -/
  | resize (path : Path) (size : Nat) (stamp : Stamp)
  | symlink (path target : Path)
  | fifo (path : Path)
  | socket (path : Path)
  | remove (path : Path)

/-- The outcome of an operation that changes everything or nothing, and the disk after it. -/
def attempt (fs : FileSystem) (result : Except FileError FileSystem) :
    Except FileError Unit × FileSystem :=
  match result with
  | .ok fs => (.ok (), fs)
  | .error e => (.error e, fs)

def ensureDirectory (fs : FileSystem) (p : Path) : Except FileError Unit × FileSystem :=
  match fs.makeDirectory p with
  | .ok fs => (.ok (), fs)
  | .error e => (if (fs.stat p).toOption.any Node.isDirectory then .ok () else .error e, fs)

/-- Makes a directory after those above it, as far as `depth` allows.  Those that were made stay
even if it cannot be made itself. -/
def makeDirectories (fs : FileSystem) : (depth : Nat) → Path → Except FileError Unit × FileSystem
  | 0, _ => (.error .notFound, fs)
  | depth + 1, p =>
    match fs.ensureDirectory p with
    | (.error .notFound, _) =>
      match p.parent?.filter (·.bytes ≠ []) with
      | none => fs.ensureDirectory p
      | some parent =>
        match fs.makeDirectories depth parent with
        | (.ok (), fs) => fs.ensureDirectory p
        | refused => refused
    | answer => answer

/-- **What comes of a change**, and the disk after it. -/
def Edit.perform (fs : FileSystem) : Edit → Except FileError Unit × FileSystem
  | write path content stamp => fs.attempt do
    let (id, fs) ← fs.openWrite path
    let fs ← fs.writeAll id content.stored
    (fs.setContent id content).setAttributes path stamp.mode stamp.mtime
  | makeDirectory path stamp =>
    match fs.makeDirectories ((Path.segmentsOf path.bytes).length + 1) path with
    | (.ok (), fs) => fs.attempt (fs.setAttributes path stamp.mode stamp.mtime)
    | refused => refused
  | resize path size stamp => fs.attempt do
    let fs ← fs.resize path size
    fs.setAttributes path stamp.mode stamp.mtime
  | symlink path target => fs.attempt (fs.makeSymlink path target)
  | fifo path => fs.attempt (fs.makeNode path fun _ => ⟨.fifo, Node.fileMode, 0⟩)
  | socket path => fs.attempt (fs.makeSocket path)
  | remove path => fs.attempt (fs.remove path)

/-- The disk after some changes, as far as they are possible. -/
def applyEdits (edits : List Edit) (fs : FileSystem) : FileSystem :=
  edits.foldl (fun fs e => (e.perform fs).2) fs

@[simp] theorem applyEdits_nil (fs : FileSystem) : fs.applyEdits [] = fs := rfl

end ArtifactCourier.FileSystem
