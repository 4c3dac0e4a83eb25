/-
  ArtifactCourier.FileSystem.Fresh
  ──────────────────────────────────────
  **A disk on which nothing has been stored yet.**

  It has two devices, a working directory and a place for temporary files.
-/
import ArtifactCourier.FileSystem.Edit

namespace ArtifactCourier.FileSystem

/-- A disk with the devices alone. -/
def devices : FileSystem where
  nodes := #[
    ⟨.directory [⟨RawText.ofString "dev", 1⟩] root, Node.directoryMode, 0⟩,
    ⟨.directory [⟨RawText.ofString "full", 3⟩, ⟨RawText.ofString "null", 2⟩] root,
      Node.directoryMode, 0⟩,
    ⟨.nullDevice, 0o666, 0⟩,
    ⟨.fullDevice, 0o666, 0⟩]
  workingDirectory := root
  workingPath := Path.ofString "/"
  tempPath := Path.ofString "/"

/-- **A fresh disk** with the two directories. -/
def fresh (workingPath tempPath : Path) : FileSystem :=
  let stamp : Stamp := ⟨Node.directoryMode, 0⟩
  let fs := devices.applyEdits [.makeDirectory workingPath stamp, .makeDirectory tempPath stamp]
  { fs with
    workingDirectory := (fs.locate workingPath).toOption.getD root
    workingPath := workingPath
    tempPath := tempPath }

end ArtifactCourier.FileSystem
