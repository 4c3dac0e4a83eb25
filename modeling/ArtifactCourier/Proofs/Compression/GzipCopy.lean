/-
  ArtifactCourier.Proofs.Compression.GzipCopy
  ──────────────────────────────────────
  **A gzip copy decompresses to its file.**

  A copy that was made is exactly one member, of the bytes of the file, whatever the place of
  the copy held before and in whatever pieces the file was read.  The file itself is as it was,
  as long as the copy was not to take its own place.

    • `gzipFile_withArrivals` — the pieces have no say in the copy,
    • `gzipFile_roundTrip` — a copy that is made gives its file back.
-/
import Mathlib
import ArtifactCourier.Proofs.Compression
import ArtifactCourier.Proofs.FileSystem.Apart

namespace ArtifactCourier.Compression

open FileSystem

variable {fs fs' opened : FileSystem} {source dest : Path} {output file : NodeId} {text : ByteArray}

/-! ## §1. Writing. -/

/-- A file is written by opening it and writing all of it. -/
theorem writeFile_of_openWrite (hopen : fs.openWrite dest = .ok (output, opened))
    (hwrite : opened.writeAll output text = .ok fs') : fs.writeFile dest text = .ok fs' := by
  unfold writeFile
  rw [hopen]
  exact hwrite

/-- What was written where a regular file can be is found there. -/
theorem bytesAt_of_writeFile (h : fs.writeFile dest text = .ok fs') (can : fs.CanWriteFile dest) :
    fs'.bytesAt dest = .ok text := by
  obtain ⟨written, hwritten, hbytes⟩ := bytesAt_writeFile can text
  obtain rfl := Except.ok.inj (h.symm.trans hwritten)
  exact hbytes

/-! ## §2. The copy. -/

/-- **However the bytes of the file arrive**, the same copy is made. -/
theorem gzipFile_withArrivals (sound : fs.Sound) {k : Nat}
    (hrun : (gzipFile source dest).perform fs = (.ok k, fs')) (arrivals : NodeId → Nat → Nat) :
    (gzipFile source dest).perform (fs.withArrivals arrivals)
      = (.ok k, fs'.withArrivals arrivals) := by
  obtain ⟨input, output, opened, data, hopen, hwrite, hdata, hcompress, size⟩ :=
    gzipFile_eq_ok.1 hrun
  refine gzipFile_eq_ok.2 ⟨input, output, opened.withArrivals arrivals, data, ?_,
    openWrite_withArrivals sound hwrite, hdata, writeAll_withArrivals hcompress, size⟩
  rw [openRead_kept sound (kept_withArrivals fs arrivals), hopen]

/-- **A gzip copy decompresses to its file.**  What is written is exactly one member, of the bytes
of the file, and the same is written however these bytes arrive.  Where a regular file can be, the
member is all that is then found, whatever was there before.  The file is as it was. -/
theorem gzipFile_roundTrip {k : Nat} {n : Node} {content : Content} (sound : fs.Sound)
    (hstat : fs.stat source = .ok n) (regular : n.kind = .file content)
    (apart : fs.locate dest ≠ fs.locate source)
    (hrun : (gzipFile source dest).perform fs = (.ok k, fs')) :
    ∃ member, Gzip.Member member content.bytes ∧
      (∀ arrivals, (gzipFile source dest).perform (fs.withArrivals arrivals)
        = (.ok k, fs'.withArrivals arrivals)) ∧
      fs.writeFile dest member = .ok fs' ∧
      (fs.CanWriteFile dest → fs'.bytesAt dest = .ok member) ∧
      k = n.size ∧ fs'.stat source = .ok n ∧ fs'.bytesAt source = .ok content.bytes := by
  obtain ⟨file, hlocate, hnode⟩ := stat_eq_ok.1 hstat
  obtain ⟨kind, mode, mtime⟩ := n
  obtain rfl : kind = .file content := regular
  obtain ⟨input, output, opened, data, hopen, hwrite, hdata, hcompress, rfl⟩ :=
    gzipFile_eq_ok.1 hrun
  obtain rfl : input = file := Except.ok.inj ((openRead_eq_ok hopen).symm.trans hlocate)
  -- What is read once the place of the copy is open is what the file held before.
  obtain ⟨-, same, hnode'⟩ := file_openWrite sound hwrite hlocate hnode
  have other : ¬ output = input := by
    rw [← same, ← hlocate]
    exact apart
  rw [if_neg other] at hnode'
  obtain rfl : data = content.bytes := by
    unfold readAll at hdata
    rw [kind?_eq_some_iff.2 ⟨_, hnode', rfl⟩] at hdata
    exact (Except.ok.inj hdata).symm
  have written := writeFile_of_openWrite hwrite hcompress
  obtain ⟨still, unchanged⟩ := file_writeFile sound written hlocate hnode apart
  exact ⟨Gzip.encode content.bytes, Gzip.member_encode _, gzipFile_withArrivals sound hrun, written,
    bytesAt_of_writeFile written, content.size_bytes, stat_eq_ok.2 ⟨_, still, unchanged⟩,
    bytesAt_of_file still unchanged⟩

/-! ## §3. A copy over an older one. -/

/-- A file with holes at its beginning, at its end and between its five bytes that are stored. -/
def scattered : Content :=
  ⟨[.hole 4096, .data (ByteArray.mk #[1]), .hole 4095, .data (ByteArray.mk #[2]), .hole 4095,
    .data (ByteArray.mk #[3]), .hole 4095, .data (ByteArray.mk #[4]), .hole 4095,
    .data (ByteArray.mk #[5]), .hole 4095]⟩

theorem size_bytes_scattered : scattered.bytes.size = 24576 :=
  (Content.size_bytes scattered).trans (by decide)

/-- A disk with such a file, a link to it and an older file in the place of its copy.  The files
belong to someone with a large number, and arrive a thousand bytes at a time. -/
def copyDisk : FileSystem where
  nodes := #[
    ⟨.directory [⟨RawText.ofString "a", 1⟩, ⟨RawText.ofString "a.gz", 2⟩,
      ⟨RawText.ofString "link", 3⟩] FileSystem.root, Node.directoryMode, 0⟩,
    ⟨.file scattered, 0o640, 7⟩,
    Node.file (.ofBytes (ByteArray.mk #[9, 9])),
    ⟨.symlink (Path.ofString "a"), 0o777, 0⟩]
  workingDirectory := FileSystem.root
  workingPath := Path.ofString "/"
  tempPath := Path.ofString "/"
  owners _ := ⟨3000000, 100⟩
  arrivals _ _ := 1000

theorem sound_copyDisk : copyDisk.Sound := by decide

theorem stat_copyDisk : copyDisk.stat (Path.ofString "link")
    = .ok ⟨.file scattered, 0o640, 7⟩ := by cbv

theorem locate_copyDisk :
    copyDisk.locate (Path.ofString "a.gz") ≠ copyDisk.locate (Path.ofString "link") := by
  have copy : copyDisk.locate (Path.ofString "a.gz") = .ok 2 := by cbv
  have link : copyDisk.locate (Path.ofString "link") = .ok 1 := by cbv
  rw [copy, link]
  intro same
  cases same

/-- The disk once the place of the copy is open. -/
def openedCopyDisk : FileSystem := copyDisk.setContent 2 .empty

theorem openWrite_copyDisk :
    copyDisk.openWrite (Path.ofString "a.gz") = .ok (2, openedCopyDisk) := by cbv

theorem kind?_openedCopyDisk : openedCopyDisk.kind? 2 = some (.file .empty) := by cbv

theorem canWriteFile_copyDisk : copyDisk.CanWriteFile (Path.ofString "a.gz") :=
  ⟨2, _, _, openWrite_copyDisk, kind?_openedCopyDisk⟩

theorem writeAll_openedCopyDisk (text : ByteArray) :
    openedCopyDisk.writeAll 2 text = .ok (openedCopyDisk.setContent 2 (.ofBytes text)) :=
  writeAll_of_file kind?_openedCopyDisk text

/-- The file that the link leads to is copied over the older one, holes and all. -/
theorem gzipFile_roundTrip_link :
    ∃ fs' member, (gzipFile (Path.ofString "link") (Path.ofString "a.gz")).perform copyDisk
          = (.ok 24576, fs') ∧
        Gzip.Member member scattered.bytes ∧
        fs'.bytesAt (Path.ofString "a.gz") = .ok member ∧
        fs'.bytesAt (Path.ofString "link") = .ok scattered.bytes := by
  have hopen : copyDisk.openRead (Path.ofString "link") = .ok 1 := by cbv
  have hdata : openedCopyDisk.readAll 1 = .ok scattered.bytes := rfl
  have hrun := gzipFile_eq_ok.2
    ⟨1, 2, _, _, hopen, openWrite_copyDisk, hdata, writeAll_openedCopyDisk _,
      size_bytes_scattered.symm⟩
  obtain ⟨member, whole, -, -, found, -, -, kept⟩ :=
    gzipFile_roundTrip sound_copyDisk stat_copyDisk rfl locate_copyDisk hrun
  exact ⟨_, member, hrun, whole, found canWriteFile_copyDisk, kept⟩

end ArtifactCourier.Compression
