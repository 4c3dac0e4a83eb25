/-
  ArtifactCourier.Proofs.Compression.Outcome
  ──────────────────────────────────────
  **What comes of making a copy, on every exit.**

  In a scratch directory nothing but its own path and name can be in the way of a file.  So what
  comes of making a copy of a regular file can be told beforehand, from the path of the
  copy and from the node that the source leads to, whatever else there is on the disk.

    • `HasScratch.verdict_openWrite` — what is in the way of a file in a scratch directory,
    • `gzipFile_outcome`, `tarGzFile_outcome` — what comes of making the copies.
-/
import ArtifactCourier.Proofs.Compression.InScratch
import ArtifactCourier.Proofs.FileSystem.ScratchContents
import ArtifactCourier.Proofs.Scratch

namespace ArtifactCourier

namespace FileSystem

/-! ## §1. Files in a scratch directory. -/

variable {fs fs' disk : FileSystem} {p : Path} {id : NodeId} {name : RawText}

/-- What is no path cannot be opened for writing. -/
theorem openWrite_of_checkPath {e : FileError} (path : checkPath p = .error e) :
    fs.openWrite p = .error e := by
  unfold openWrite holder resolve
  rw [path]
  split <;> rfl

/-- What is in the way of a file with a name in a scratch directory: only its path and its name. -/
def obstacle (p : Path) (name : RawText) : Except FileError Unit := do
  checkPath (p.join name)
  if name.bytes.length > maxNameLength then .error .nameTooLong else .ok ()

/-- **Whether a file can be opened in a scratch directory** does not depend on the disk. -/
theorem HasScratch.verdict_openWrite (sound : fs.Sound) (h : fs.HasScratch p id disk)
    (step : name.IsStep) : verdict (disk.openWrite (p.join name)) = obstacle p name := by
  unfold obstacle
  rcases path : checkPath (p.join name) with e | _
  · exact verdict_eq_error.2 (openWrite_of_checkPath path)
  dsimp only [bind, Except.bind]
  split
  · next long =>
    have written : name.bytes ≠ [] := fun given => (isEntryName_iff.1 step.1).1 (.inl given)
    have plain := Path.endsWithSlash_join (h.follow sound).1 step.2 written
    apply verdict_eq_error.2
    unfold FileSystem.openWrite
    rw [if_neg (by simp [plain]), h.resolve_join sound step path, if_pos long]
    rfl
  · next short =>
    obtain ⟨file, opened, hopen⟩ := h.exists_openWrite sound step path (Nat.le_of_not_lt short)
    exact verdict_eq_ok.2 ⟨_, hopen⟩

end FileSystem

/-! ## §2. The copies. -/

namespace Compression

open FileSystem

/-- What comes of making a gzip copy of a regular file in a scratch directory. -/
def gzipOutcome (scratch : Path) (name : RawText) (n : Node) : Except Failure Nat :=
  match obstacle scratch name with
  | .error e => .error ((Failure.ofFile e).within (.create (scratch.join name)))
  | .ok _ => .ok n.size

/-- What comes of making an archive there. -/
def tarGzOutcome (source scratch : Path) (name : RawText) (n : Node) (owner : Owner) :
    Except Failure Unit :=
  match source.fileName? with
  | none => .error (.ofProblem (.noFileName source))
  | some base =>
    match obstacle scratch name with
    | .error e => .error ((Failure.ofFile e).within (.create (scratch.join name)))
    | .ok _ =>
      match Tar.membersOf source base n owner with
      | .error refusal => .error ((Failure.ofProblem refusal.problem).within (.addMember source))
      | .ok _ => .ok ()

variable {fs disk : FileSystem} {scratch source : Path} {id : NodeId} {name : RawText} {n : Node}
  (sound : fs.Sound) (h : fs.HasScratch scratch id disk) (step : name.IsStep)
  (hstat : fs.stat source = .ok n) (regular : n.isFile = true)

include sound h step hstat regular

/-- **A gzip copy comes out as was foretold.** -/
theorem gzipFile_outcome :
    ((gzipFile source (scratch.join name)).perform disk).1 = gzipOutcome scratch name n := by
  unfold gzipOutcome
  obtain ⟨file, hlocate, hnode⟩ := stat_eq_ok.1 hstat
  obtain ⟨kind, mode, mtime⟩ := n
  cases kind with
  | file content =>
    obtain ⟨hlocate', hnode'⟩ := file_grows sound h.grows hlocate hnode rfl
    have hopen : disk.openRead source = .ok file := by
      unfold openRead
      rw [hlocate']
      simp only [bind, Except.bind, kind?_eq_some_iff.2 ⟨_, hnode', rfl⟩]
    rw [← h.verdict_openWrite sound step]
    rcases hwrite : disk.openWrite (scratch.join name) with e | ⟨output, opened⟩
    · unfold gzipFile
      rw [Disk.perform_bind, Disk.perform_look, hopen]
      dsimp only
      rw [Disk.perform_bind, Disk.perform_change, hwrite]
      rfl
    · obtain ⟨h₁, hchild, -⟩ := h.openWrite sound step hwrite
      have hdata : opened.readAll file = .ok content.bytes := by
        unfold readAll
        rw [kind?_eq_some_iff.2 ⟨_, (file_grows sound h₁.grows hlocate hnode rfl).2, rfl⟩]
      obtain ⟨written, hcompress, -⟩ := h₁.writeAll hchild (Gzip.encode content.bytes)
      rw [gzipFile_eq_ok.2 ⟨file, output, opened, _, hopen, hwrite, hdata, hcompress, rfl⟩]
      exact congrArg Except.ok content.size_bytes
  | _ => cases regular

/-- **An archive comes out as was foretold.** -/
theorem tarGzFile_outcome :
    ((tarGzFile source (scratch.join name)).perform disk).1
      = tarGzOutcome source scratch name n (fs.ownerAt source) := by
  unfold tarGzFile tarGzOutcome
  cases source.fileName? with
  | none => rfl
  | some base =>
    dsimp only
    rw [← h.verdict_openWrite sound step, Disk.perform_bind, Disk.perform_change]
    rcases hwrite : disk.openWrite (scratch.join name) with e | ⟨output, opened⟩
    · rfl
    obtain ⟨h₁, hchild, -⟩ := h.openWrite sound step hwrite
    have made : archiveMembers opened source base
        = Tar.membersOf source base n (fs.ownerAt source) := by
      rw [archiveMembers_grows sound h₁.grows hstat regular]
      unfold archiveMembers
      rw [hstat]
    dsimp only [verdict, Except.map]
    rw [Disk.perform_bind, Disk.perform_get]
    dsimp only
    rw [made]
    cases Tar.membersOf source base n (fs.ownerAt source) with
    | error refusal =>
      dsimp only
      rw [Disk.perform_bind, perform_writeRemains]
      rfl
    | ok members =>
      obtain ⟨written, hcompress, -⟩ := h₁.writeAll hchild (Gzip.encode (Tar.archive members))
      dsimp only
      rw [perform_writeCompressed, textOf_archive, hcompress]

end Compression
end ArtifactCourier
