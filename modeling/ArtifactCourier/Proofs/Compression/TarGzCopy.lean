/-
  ArtifactCourier.Proofs.Compression.TarGzCopy
  ──────────────────────────────────────
  **A tar.gz copy gives its file back.**

  A copy that was made is exactly one gzip member, of a stream that archives the file under its
  base name: with its bytes, holes among them, its permission bits and its time, and whom it
  belongs to, however long the file is and however long its name.  The archive is begun before
  the file is looked at, so a copy that takes the file's own place archives what is left of it
  then.

    • `tarGzFile_roundTrip` — a copy that is made gives its file back.
-/
import ArtifactCourier.Proofs.Compression.GzipCopy
import ArtifactCourier.Proofs.FileSystem.BaseName
import ArtifactCourier.Proofs.Tar.Stream

namespace ArtifactCourier

namespace Compression

open FileSystem

variable {fs fs' : FileSystem} {source dest : Path}

/-! ## §1. The copy. -/

theorem archiveMembers_eq_ok {name : RawText} {n : Node} {members : List Tar.Member}
    (hstat : fs.stat source = .ok n) :
    archiveMembers fs source name = .ok members ↔
      Tar.membersOf source name n (fs.ownerAt source) = .ok members := by
  unfold archiveMembers
  rw [hstat]

/-- **A tar.gz copy gives its file back.**  What is written is exactly one member, of a stream that
archives the file under its base name.  The file is archived as it is once the place of the copy
has been opened: as it was, unless that place is its own. -/
theorem tarGzFile_roundTrip {n : Node} {content : Content} (sound : fs.Sound)
    (hstat : fs.stat source = .ok n) (regular : n.kind = .file content) (reported : n.Reported)
    (hrun : (tarGzFile source dest).perform fs = (.ok (), fs')) :
    ∃ base member stream seen held,
      source.fileName? = some base ∧ Path.slash ∉ base.bytes ∧
      Gzip.Member member stream ∧ Tar.Archives stream base seen held ∧
      Tar.BelongsTo stream (fs.ownerAt source) ∧ seen.kind = .file held ∧
      (∃ output opened, fs.openWrite dest = .ok (output, opened) ∧ opened.stat source = .ok seen) ∧
      (fs.locate dest ≠ fs.locate source → seen = n ∧ fs'.stat source = .ok n) ∧
      fs.writeFile dest member = .ok fs' ∧
      (fs.CanWriteFile dest → fs'.bytesAt dest = .ok member) := by
  obtain ⟨file, hlocate, hnode⟩ := stat_eq_ok.1 hstat
  obtain ⟨kind, mode, mtime⟩ := n
  obtain rfl : kind = .file content := regular
  obtain ⟨base, output, opened, members, hbase, hwrite, hmembers, hcompress⟩ :=
    tarGzFile_eq_ok.1 hrun
  -- The base name is a single step that the operating system accepts.
  obtain ⟨step, within⟩ := Path.isStep_of_fileName? hbase
  obtain ⟨plain, short⟩ := plain_of_checkPath (resolve_eq_ok.1 (locate_eq_ok.1 hlocate)).1
  have plain : 0 ∉ base.bytes := fun zero => plain (within.mem zero)
  have short : base.bytes.length < maxPathLength := Nat.lt_of_le_of_lt within.length_le short
  -- What is archived is the file, or what is left of it.
  obtain ⟨hlocate', same, hnode'⟩ := file_openWrite sound hwrite hlocate hnode
  have hseen := stat_eq_ok.2 ⟨file, hlocate', hnode'⟩
  have written := writeFile_of_openWrite hwrite hcompress
  generalize hheld : (if output = file then Content.empty else content) = held at *
  have size : held.size < 2 ^ 64 := by
    rw [← hheld]
    split
    · exact Nat.two_pow_pos 64
    · exact reported.size
  have left : Node.Reported ⟨.file held, mode, mtime⟩ := ⟨reported.mode, size, reported.mtime⟩
  have archived := (archiveMembers_eq_ok hseen).1 hmembers
  have owner : opened.ownerAt source = fs.ownerAt source := by
    rw [ownerAt_of_locate hlocate', ownerAt_of_locate hlocate, (alike_openWrite hwrite).owners]
  have belongs := Tar.belongsTo_of_file rfl left step short archived
  rw [owner] at belongs
  refine ⟨base, _, _, ⟨.file held, mode, mtime⟩, held, hbase, step.2, Gzip.member_encode _,
    Tar.archives_of_file rfl left step short archived plain, belongs, rfl,
    ⟨output, opened, hwrite, hseen⟩, ?_, written, bytesAt_of_writeFile written⟩
  intro apart
  have other : ¬ output = file := by
    rw [← same, ← hlocate]
    exact apart
  rw [if_neg other] at hheld
  obtain ⟨still, unchanged⟩ := file_writeFile sound written hlocate hnode apart
  exact ⟨by rw [hheld], stat_eq_ok.2 ⟨file, still, unchanged⟩⟩

/-! ## §2. A copy of a file behind a link. -/

/-- The link of `copyDisk` is archived under its own name, with the file that it leads to: its header
has no room for all its stretches, nor for its owner in octal digits. -/
theorem tarGzFile_roundTrip_link :
    ∃ fs' member stream, (tarGzFile (Path.ofString "link") (Path.ofString "a.gz")).perform copyDisk
          = (.ok (), fs') ∧
        fs'.bytesAt (Path.ofString "a.gz") = .ok member ∧ Gzip.Member member stream ∧
        Tar.BelongsTo stream ⟨3000000, 100⟩ ∧
        Tar.members? stream = some [⟨(RawText.ofString "link").bytes, Tar.MemberKind.file.flag,
          0o100640, 7, scattered.bytes⟩] := by
  have reported : Node.Reported ⟨.file scattered, 0o640, 7⟩ := ⟨by decide, by decide, by decide⟩
  have hbase : (Path.ofString "link").fileName? = some (RawText.ofString "link") := by cbv
  have hseen : openedCopyDisk.stat (Path.ofString "link")
      = .ok ⟨.file scattered, 0o640, 7⟩ := by cbv
  have hname : Tar.MemberName.ofPath ⟨RawText.ofString "link"⟩
      = .ok ⟨(RawText.ofString "link").bytes, none⟩ := by cbv
  obtain ⟨members, hmembers⟩ : ∃ members, archiveMembers openedCopyDisk (Path.ofString "link")
      (RawText.ofString "link") = .ok members := by
    simp only [archiveMembers_eq_ok hseen, Tar.membersOf, Tar.underName, hname]
    exact ⟨_, rfl⟩
  have hrun := tarGzFile_eq_ok.2
    ⟨_, 2, _, _, hbase, openWrite_copyDisk, hmembers, writeAll_openedCopyDisk _⟩
  obtain ⟨base, member, stream, seen, held, hbase', -, whole, archives, belongs, regular, -, unchanged,
    -, found⟩ := tarGzFile_roundTrip sound_copyDisk stat_copyDisk rfl reported hrun
  obtain rfl := Option.some.inj (hbase.symm.trans hbase')
  obtain ⟨rfl, -⟩ := unchanged locate_copyDisk
  have owner : copyDisk.ownerAt (Path.ofString "link") = ⟨3000000, 100⟩ := by cbv
  rw [owner] at belongs
  cases regular
  exact ⟨_, member, stream, hrun, found canWriteFile_copyDisk, whole, belongs, archives.extracted⟩

end Compression
end ArtifactCourier
