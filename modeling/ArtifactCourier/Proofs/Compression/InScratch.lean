/-
  ArtifactCourier.Proofs.Compression.InScratch
  ──────────────────────────────────────
  **When the copies of a file can be made.**

  In a scratch directory there is nothing in the way of a file, so both copies of a regular
  file are made there as long as their own names are not too long.

    • `HasScratch.exists_openWrite` — a file can be made in a scratch directory,
    • `exists_gzipFile`, `exists_tarGzFile` — so can the copies.
-/
import ArtifactCourier.Proofs.Compression.TarGzCopy
import ArtifactCourier.Proofs.Tar.LongNames

namespace ArtifactCourier

/-! ## §1. Files in a scratch directory. -/

namespace FileSystem

variable {fs fs' : FileSystem} {p : Path} {id : NodeId} {name : RawText}

/-- The path of a file in a directory is one, if there is room for it. -/
theorem checkPath_join (path : checkPath p = .ok ()) (step : name.IsStep) (plain : 0 ∉ name.bytes)
    (room : p.bytes.length + 1 + name.bytes.length < maxPathLength) :
    checkPath (p.join name) = .ok () := by
  have some := bytes_ne_nil_of_checkPath path
  have plain' := (plain_of_checkPath path).1
  have other : (0 : UInt8) ≠ Path.slash := by decide
  have bytes := Path.bytes_join some step.2
  have zero : 0 ∉ (p.join name).bytes := by
    rw [bytes]
    split <;> simp [plain, plain', other]
  have nonempty : (p.join name).bytes ≠ [] := by
    rw [bytes]
    split <;> simp [some]
  have short : ¬ (p.join name).bytes.length ≥ maxPathLength := by
    rw [bytes, Nat.not_le]
    split <;> simp only [List.length_append, List.length_cons] <;> omega
  unfold checkPath
  rw [if_neg (by simpa using zero), if_neg (by simpa using nonempty), if_neg short]

/-- **A file can be made in a scratch directory**, or one that is there written anew. -/
theorem HasScratch.exists_openWrite (sound : fs.Sound) (h : fs.HasScratch p id fs')
    (step : name.IsStep) (path : checkPath (p.join name) = .ok ())
    (short : name.bytes.length ≤ maxNameLength) :
    ∃ file opened, fs'.openWrite (p.join name) = .ok (file, opened) := by
  have written : name.bytes ≠ [] := fun given => (isEntryName_iff.1 step.1).1 (.inl given)
  have plain := Path.endsWithSlash_join (h.follow sound).1 step.2 written
  unfold FileSystem.openWrite
  rw [if_neg (by simp [plain]), h.resolve_join sound step path, if_neg (Nat.not_lt_of_le short)]
  cases hchild : fs'.child? id name with
  | none => exact ⟨_, _, rfl⟩
  | some file =>
    obtain ⟨-, content, mode, mtime, hnode⟩ := h.file_of_child? hchild
    have hkind : fs'.kind? file = some (.file content) := kind?_eq_some_iff.2 ⟨_, hnode, rfl⟩
    simp only [bind, Except.bind, hkind]
    exact ⟨_, _, rfl⟩

end FileSystem

/-! ## §2. The copies. -/

namespace Compression

open FileSystem

variable {fs fs' : FileSystem} {scratch source : Path} {id : NodeId} {name : RawText} {n : Node}

section copies

variable (sound : fs.Sound) (h : fs.HasScratch scratch id fs') (step : name.IsStep)
  (path : checkPath (scratch.join name) = .ok ()) (short : name.bytes.length ≤ maxNameLength)
  (hstat : fs.stat source = .ok n) (regular : n.isFile = true)

include sound h step path short hstat regular

/-- **A gzip copy can be made.** -/
theorem exists_gzipFile :
    ∃ k fs'', (gzipFile source (scratch.join name)).perform fs' = (.ok k, fs'') := by
  obtain ⟨file, hlocate, hnode⟩ := stat_eq_ok.1 hstat
  obtain ⟨kind, mode, mtime⟩ := n
  cases kind with
  | file content =>
    obtain ⟨output, opened, hwrite⟩ := h.exists_openWrite sound step path short
    obtain ⟨h₁, hchild, -⟩ := h.openWrite sound step hwrite
    obtain ⟨hlocate', hnode'⟩ := file_grows sound h.grows hlocate hnode rfl
    have hopen : fs'.openRead source = .ok file := by
      unfold openRead
      rw [hlocate']
      simp only [bind, Except.bind, kind?_eq_some_iff.2 ⟨_, hnode', rfl⟩]
    have hdata : opened.readAll file = .ok content.bytes := by
      unfold readAll
      rw [kind?_eq_some_iff.2 ⟨_, (file_grows sound h₁.grows hlocate hnode rfl).2, rfl⟩]
    obtain ⟨written, hcompress, -⟩ := h₁.writeAll hchild (Gzip.encode content.bytes)
    exact ⟨_, written,
      gzipFile_eq_ok.2 ⟨file, output, opened, _, hopen, hwrite, hdata, hcompress, rfl⟩⟩
  | _ => cases regular

/-- **An archive can be made**, if the name of the file is text. -/
theorem exists_tarGzFile {base : RawText} {s : String} (hbase : source.fileName? = some base)
    (text : base = RawText.ofString s) :
    ∃ fs'', (tarGzFile source (scratch.join name)).perform fs' = (.ok (), fs'') := by
  obtain ⟨output, opened, hwrite⟩ := h.exists_openWrite sound step path short
  obtain ⟨h₁, hchild, -⟩ := h.openWrite sound step hwrite
  obtain ⟨members, made⟩ := Tar.exists_membersOf source (fs.ownerAt source)
    (Path.isStep_of_fileName? hbase).1 text regular
  have hmembers : archiveMembers opened source base = .ok members := by
    rw [archiveMembers_grows sound h₁.grows hstat regular]
    exact (archiveMembers_eq_ok hstat).2 made
  obtain ⟨written, hcompress, -⟩ := h₁.writeAll hchild (Gzip.encode (Tar.archive members))
  exact ⟨written,
    tarGzFile_eq_ok.2 ⟨base, output, opened, members, hbase, hwrite, hmembers, hcompress⟩⟩

end copies

/-! ## §3. What the copies hold. -/

/-- A regular file can be read. -/
theorem exists_bytesAt (hstat : fs.stat source = .ok n) (regular : n.isFile = true) :
    ∃ bytes, fs.bytesAt source = .ok bytes := by
  obtain ⟨id, hlocate, hnode⟩ := stat_eq_ok.1 hstat
  obtain ⟨kind, mode, mtime⟩ := n
  cases kind with
  | file content => exact ⟨_, bytesAt_of_file hlocate hnode⟩
  | _ => cases regular

theorem isSome_gzipOf (hstat : fs.stat source = .ok n) (regular : n.isFile = true) :
    (gzipOf fs source).isSome = true := by
  obtain ⟨bytes, hbytes⟩ := exists_bytesAt hstat regular
  rw [gzipOf, hbytes]
  rfl

theorem isSome_tarGzOf (hstat : fs.stat source = .ok n) (regular : n.isFile = true)
    {base : RawText} {s : String} (hbase : source.fileName? = some base)
    (text : base = RawText.ofString s) : (tarGzOf fs source).isSome = true := by
  obtain ⟨members, made⟩ := Tar.exists_membersOf source (fs.ownerAt source)
    (Path.isStep_of_fileName? hbase).1 text regular
  rw [tarGzOf, hbase]
  dsimp only [bind, Option.bind]
  rw [(archiveMembers_eq_ok hstat).2 made]
  rfl

/-- What holds as much as something that there is can be read. -/
theorem exists_of_toOption_eq {ε α : Type} {x : Except ε α} {y : Option α} (h : x.toOption = y)
    (some : y.isSome = true) : ∃ a, x = .ok a := by
  subst h
  cases x with
  | error e => cases some
  | ok a => exact ⟨a, rfl⟩

end Compression
end ArtifactCourier
