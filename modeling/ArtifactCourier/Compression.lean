/-
  ArtifactCourier.Compression
  ──────────────────────────────────────
  **Compressed copies of a file.**

  `gzipFile` writes the gzip member of a file, `tarGzFile` the gzip member of an archive
  that holds it under its base name.  Both write through a buffer, so a device that has
  no room refuses what does not fit into the buffer at once, and the rest at the end.

  The two differ in the order of their steps: the archive is begun before the source is
  looked at.
-/
import ArtifactCourier.Disk
import ArtifactCourier.Gzip
import ArtifactCourier.Tar.Archive

namespace ArtifactCourier.Compression

/-- The size of the buffer, and of the largest pieces in which a file is read. -/
def bufferSize : Nat := 8192

/-- A piece of the text that is compressed, and the problem that its writer has without room. -/
structure Piece where
  bytes : ByteArray
  problem : Problem

/-- The problem with which a device without room refuses pieces and the end of the member behind
them, of which `w` wrote what came before: that of the first piece to find more written than the
buffer holds.  The end is the last to send something, and then the buffer is emptied. -/
def refusal (dest : Path) (w : Gzip.Writer) : List Piece → Problem
  | [] => if w.finish.size > bufferSize then .finishGzip dest else .flush dest
  | p :: rest =>
    if w.written > bufferSize then p.problem else refusal dest (w.write p.bytes) rest

/-- Writes the compressed form of a text to an open file, piece by piece. -/
def writeCompressed (dest : Path) (id : NodeId) (pieces : List Piece) : Disk Unit := do
  match (← get).writeAll id (Gzip.encodePieces (pieces.map (·.bytes))) with
  | .ok fs => set fs
  | .error e => Disk.fail ((Failure.ofFile e).within (refusal dest .start pieces))

/-- Writes what is left of a compressed text that could not be completed; nobody is told if
that fails too. -/
def writeRemains (id : NodeId) (pieces : List ByteArray) : Disk Unit := do
  match (← get).writeAll id (Gzip.encodePieces pieces) with
  | .ok fs => set fs
  | .error _ => pure ()

/-- **Writes a gzip copy of `source` to `dest`** and tells how many bytes it read. -/
def gzipFile (source dest : Path) : Disk Nat := do
  let input ← Disk.look (.openToCompress source) (·.openRead source)
  let output ← Disk.change (.create dest) (·.openWrite dest)
  match (← get).readPieces input bufferSize with
  | .error e =>
    writeRemains output []
    Disk.fail ((Failure.ofFile e).within (.compress source))
  | .ok pieces =>
    writeCompressed dest output (pieces.map (⟨·, .compress source⟩))
    pure (sizeOfPieces pieces)

/-- The members of the archive of a file, as the file system is now. -/
def archiveMembers (fs : FileSystem) (source : Path) (name : RawText) :
    Except Tar.Refusal (List Tar.Member) :=
  match fs.stat source with
  | .error e => .error ⟨.memberMetadata e source, []⟩
  | .ok n => Tar.membersOf source name n (fs.ownerAt source)

/-- The pieces in which members are written: the data of each as it is read from its file. -/
def memberPieces (length : Nat → Nat) (members : List Tar.Member) : List ByteArray :=
  members.flatMap fun m =>
    m.header.bytes.toByteArray :: piecesFrom (fun _ => Tar.blockSize) m.extension.toByteArray 0
      ++ piecesFrom length m.data 0
      ++ piecesFrom (fun _ => Tar.blockSize) (zeros (Tar.fill m.data.size)) 0

/-- How many bytes come of each read of the file that a path leads to. -/
def arrivingAt (fs : FileSystem) (source : Path) (offset : Nat) : Nat :=
  (fs.locate source).toOption.elim 0 (fs.arriving · bufferSize offset)

/-- **Writes an archive that holds `source` alone, under its base name, to `dest`.** -/
def tarGzFile (source dest : Path) : Disk Unit := do
  match source.fileName? with
  | none => Disk.fail (.ofProblem (.noFileName source))
  | some name =>
    let output ← Disk.change (.create dest) (·.openWrite dest)
    let fs ← get
    match archiveMembers fs source name with
    | .error refusal =>
      writeRemains output (memberPieces (arrivingAt fs source) refusal.written ++ [Tar.ending])
      Disk.fail ((Failure.ofProblem refusal.problem).within (.addMember source))
    | .ok members =>
      writeCompressed dest output
        ((memberPieces (arrivingAt fs source) members).map (⟨·, .addMember source⟩)
          ++ [⟨Tar.ending, .finishTar dest⟩])

end ArtifactCourier.Compression
