/-
  ArtifactCourier.Disk
  ──────────────────────────────────────
  **Doing things to the disk.**

  A `Disk` action reads and changes a file system and may fail; what it changed before it
  failed stays changed.
-/
import ArtifactCourier.FileSystem.Operations

namespace ArtifactCourier

/-- An action on a file system. -/
abbrev Disk (α : Type) : Type := ExceptT Failure (StateM FileSystem) α

namespace Disk

/-- Runs an action: its outcome, and the file system it leaves. -/
def perform {α : Type} (action : Disk α) (fs : FileSystem) : Except Failure α × FileSystem :=
  (ExceptT.run action).run fs

def fail {α : Type} (f : Failure) : Disk α := throw f

/-- Looks something up; a refusal is told as the cause of `p`. -/
def look {α : Type} (p : Problem) (f : FileSystem → Except FileError α) : Disk α := do
  match f (← get) with
  | .ok a => pure a
  | .error e => throw ((Failure.ofFile e).within p)

/-- Changes the file system; a refusal is told as the cause of `p`. -/
def change {α : Type} (p : Problem) (f : FileSystem → Except FileError (α × FileSystem)) :
    Disk α := do
  match f (← get) with
  | .ok (a, fs) => set fs; pure a
  | .error e => throw ((Failure.ofFile e).within p)

/-- Changes the file system in a way that cannot fail. -/
def put (f : FileSystem → FileSystem) : Disk Unit := modify f

end Disk
end ArtifactCourier
