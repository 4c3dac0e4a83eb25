/-
  ArtifactCourier.Proofs.Compression
  ──────────────────────────────────────
  **What the compressed copies of a file hold.**

  A copy is compressed piece by piece, as the file is read, and holds the compressed form of
  what the pieces make up.  The copies are made in a scratch directory, so the file itself
  stays as it was while they are made, and nothing but the directory changes.

    • `gzipOf`, `tarGzOf` — the two compressed forms of a file on a disk,
    • `gzipFile_eq_ok`, `tarGzFile_eq_ok` — when a copy is made, and of what,
    • `gzipFile_in_scratch`, `tarGzFile_in_scratch` — a copy that was made holds this form.
-/
import ArtifactCourier.Compression
import ArtifactCourier.Proofs.FileSystem.Arrivals
import ArtifactCourier.Proofs.FileSystem.ScratchDirectory
import ArtifactCourier.Proofs.Gzip.Writer
import ArtifactCourier.Proofs.Perform

namespace ArtifactCourier.Compression

open FileSystem

/-- The gzip member of a file. -/
def gzipOf (fs : FileSystem) (source : Path) : Option ByteArray :=
  (fs.bytesAt source).toOption.map Gzip.encode

/-- The gzip member of an archive that holds a file alone, under its base name. -/
def tarGzOf (fs : FileSystem) (source : Path) : Option ByteArray := do
  let name ← source.fileName?
  let members ← (archiveMembers fs source name).toOption
  some (Gzip.encode (Tar.archive members))

/-! ## §1. Pieces. -/

/-- The text that pieces make up. -/
def textOf (pieces : List Piece) : ByteArray := joined (pieces.map (·.bytes))

theorem textOf_read (pieces : List ByteArray) (p : Problem) :
    textOf (pieces.map (⟨·, p⟩)) = joined pieces := by
  simp only [textOf, List.map_map, Function.comp_def, List.map_id']

/-- **Members are written in the pieces that they consist of**, however their data are read. -/
theorem joined_memberPieces (length : Nat → Nat) (members : List Tar.Member) :
    joined (memberPieces length members) = Tar.membersBytes members := by
  have behind (out : ByteArray) :
      members.foldl (fun out m => out ++ m.bytes) out = out ++ joined (memberPieces length members) := by
    induction members generalizing out with
    | nil => exact ByteArray.append_empty.symm
    | cons m members ih =>
      rw [List.foldl_cons, ih, Tar.Member.bytes, memberPieces, memberPieces]
      simp only [List.flatMap_cons, List.cons_append, joined_cons, joined_append, joined_read,
        ByteArray.append_assoc]
  rw [Tar.membersBytes, behind, ByteArray.empty_append]

theorem joined_archive (length : Nat → Nat) (members : List Tar.Member) :
    joined (memberPieces length members ++ [Tar.ending]) = Tar.archive members := by
  rw [joined_append, joined_memberPieces, joined_cons, joined_nil, ByteArray.append_empty,
    Tar.archive]

theorem textOf_archive (length : Nat → Nat) (members : List Tar.Member) (p q : Problem) :
    textOf ((memberPieces length members).map (⟨·, p⟩) ++ [⟨Tar.ending, q⟩])
      = Tar.archive members := by
  rw [← joined_archive length]
  simp only [textOf, List.map_append, List.map_map, Function.comp_def, List.map_id',
    List.map_cons, List.map_nil]

theorem perform_writeCompressed (dest : Path) (id : NodeId) (pieces : List Piece)
    (fs : FileSystem) :
    (writeCompressed dest id pieces).perform fs =
      match fs.writeAll id (Gzip.encode (textOf pieces)) with
      | .ok fs' => (.ok (), fs')
      | .error e => (.error ((Failure.ofFile e).within (refusal dest .start pieces)), fs) := by
  unfold writeCompressed
  rw [Disk.perform_bind, Disk.perform_get]
  dsimp only
  rw [Gzip.encodePieces_eq]
  unfold textOf
  cases fs.writeAll id (Gzip.encode (joined (pieces.map (·.bytes)))) <;> rfl

/-! ## §2. Copies that are made. -/

section made

variable {fs fs' opened : FileSystem} {source dest : Path} {output : NodeId}

theorem writeCompressed_eq_ok {pieces : List Piece} :
    (writeCompressed dest output pieces).perform fs = (.ok (), fs') ↔
      fs.writeAll output (Gzip.encode (textOf pieces)) = .ok fs' := by
  rw [perform_writeCompressed]
  rcases fs.writeAll output (Gzip.encode (textOf pieces)) with e | written
  · simp
  · simp

/-- **When a gzip copy is made**: both files can be opened, and the source can then be read. -/
theorem gzipFile_eq_ok {k : Nat} :
    (gzipFile source dest).perform fs = (.ok k, fs') ↔
      ∃ input output opened data, fs.openRead source = .ok input ∧
        fs.openWrite dest = .ok (output, opened) ∧ opened.readAll input = .ok data ∧
        opened.writeAll output (Gzip.encode data) = .ok fs' ∧ k = data.size := by
  unfold gzipFile
  constructor
  · intro hrun
    obtain ⟨input, _, hread, hrest⟩ := Disk.perform_bind_eq_ok.1 hrun
    obtain ⟨hopen, rfl⟩ := Disk.perform_look_eq_ok.1 hread
    obtain ⟨output, opened, hcreate, hrest⟩ := Disk.perform_bind_eq_ok.1 hrest
    have hwrite := Disk.perform_change_eq_ok.1 hcreate
    rw [Disk.perform_bind, Disk.perform_get] at hrest
    dsimp only at hrest
    cases hpieces : opened.readPieces input bufferSize with
    | error e =>
      rw [hpieces] at hrest
      obtain ⟨_, _, -, hfail⟩ := Disk.perform_bind_eq_ok.1 hrest
      cases hfail
    | ok pieces =>
      rw [hpieces] at hrest
      obtain ⟨_, _, hcompress, hdone⟩ := Disk.perform_bind_eq_ok.1 hrest
      cases hdone
      have written := writeCompressed_eq_ok.1 hcompress
      rw [textOf_read] at written
      exact ⟨input, output, opened, joined pieces, hopen, hwrite, readPieces_eq_ok hpieces, written,
        sizeOfPieces_eq pieces⟩
  · rintro ⟨input, output, opened, data, hopen, hwrite, hdata, hcompress, rfl⟩
    refine Disk.perform_bind_eq_ok.2 ⟨input, fs, Disk.perform_look_eq_ok.2 ⟨hopen, rfl⟩, ?_⟩
    refine Disk.perform_bind_eq_ok.2 ⟨output, opened, Disk.perform_change_eq_ok.2 hwrite, ?_⟩
    rw [Disk.perform_bind, Disk.perform_get]
    dsimp only
    rw [readPieces, hdata]
    refine Disk.perform_bind_eq_ok.2 ⟨(), fs', writeCompressed_eq_ok.2 ?_, ?_⟩
    · rw [textOf_read, joined_read]
      exact hcompress
    · rw [sizeOfPieces_eq, joined_read]
      rfl

/-- **When an archive is made**: its place can be opened, and then the source can be archived. -/
theorem tarGzFile_eq_ok :
    (tarGzFile source dest).perform fs = (.ok (), fs') ↔
      ∃ name output opened members, source.fileName? = some name ∧
        fs.openWrite dest = .ok (output, opened) ∧
        archiveMembers opened source name = .ok members ∧
        opened.writeAll output (Gzip.encode (Tar.archive members)) = .ok fs' := by
  unfold tarGzFile
  cases hbase : source.fileName? with
  | none =>
    constructor
    · intro hrun
      cases hrun
    · rintro ⟨_, _, _, _, hname, -⟩
      cases hname
  | some base =>
    dsimp only
    constructor
    · intro hrun
      obtain ⟨output, opened, hcreate, hrest⟩ := Disk.perform_bind_eq_ok.1 hrun
      have hwrite := Disk.perform_change_eq_ok.1 hcreate
      rw [Disk.perform_bind, Disk.perform_get] at hrest
      dsimp only at hrest
      cases hmembers : archiveMembers opened source base with
      | error refusal =>
        rw [hmembers] at hrest
        obtain ⟨_, _, -, hfail⟩ := Disk.perform_bind_eq_ok.1 hrest
        cases hfail
      | ok members =>
        rw [hmembers] at hrest
        refine ⟨base, output, opened, members, rfl, hwrite, hmembers, ?_⟩
        rw [← textOf_archive]
        exact writeCompressed_eq_ok.1 hrest
    · rintro ⟨name, output, opened, members, hname, hwrite, hmembers, hcompress⟩
      cases hname
      refine Disk.perform_bind_eq_ok.2 ⟨output, opened, Disk.perform_change_eq_ok.2 hwrite, ?_⟩
      rw [Disk.perform_bind, Disk.perform_get]
      dsimp only
      rw [hmembers]
      refine writeCompressed_eq_ok.2 ?_
      rw [textOf_archive]
      exact hcompress

end made

/-! ## §3. Copies in a scratch directory. -/

variable {fs fs' fs'' : FileSystem} {scratch source : Path} {id : NodeId} {name : RawText}
  {n : Node}

/-- What is written to an open file of a scratch directory can be read there. -/
theorem writeAll_in_scratch (sound : fs.Sound) (h : fs.HasScratch scratch id fs')
    (hname : name.IsStep) (path : checkPath (scratch.join name) = .ok ())
    (short : ¬ name.bytes.length > maxNameLength) {output : NodeId}
    (hchild : fs'.child? id name = some output) {data : ByteArray}
    (hwrite : fs'.writeAll output data = .ok fs'') :
    fs.HasScratch scratch id fs'' ∧ fs''.bytesAt (scratch.join name) = .ok data := by
  obtain ⟨written, hwritten, after, hchild', hkind⟩ := h.writeAll hchild data
  obtain rfl := Except.ok.inj (hwrite.symm.trans hwritten)
  exact ⟨after, after.bytesAt sound hname path short hchild' hkind⟩

/-- **A gzip copy that was made** holds the gzip member of the file. -/
theorem gzipFile_in_scratch (sound : fs.Sound) (h : fs.HasScratch scratch id fs')
    (hname : name.IsStep) (hstat : fs.stat source = .ok n) (regular : n.isFile = true) {k : Nat}
    (hrun : (gzipFile source (scratch.join name)).perform fs' = (.ok k, fs'')) :
    fs.HasScratch scratch id fs'' ∧
      (fs''.bytesAt (scratch.join name)).toOption = gzipOf fs source := by
  obtain ⟨file, hlocate, hnode⟩ := stat_eq_ok.1 hstat
  obtain ⟨kind, mode, mtime⟩ := n
  cases kind with
  | file content =>
    obtain ⟨input, output, fs₁, data, hopen, hwrite, hread, hcompress, -⟩ := gzipFile_eq_ok.1 hrun
    obtain ⟨h₁, hchild, short⟩ := h.openWrite sound hname hwrite
    -- The input is the file itself, before and after the copy was begun.
    obtain rfl : input = file := by
      have same := (file_grows sound h.grows hlocate hnode rfl).1.symm.trans (openRead_eq_ok hopen)
      cases same
      rfl
    have hnode₁ := (file_grows sound h₁.grows hlocate hnode rfl).2
    -- So what is compressed is what the file held before.
    obtain rfl : data = content.bytes := by
      unfold readAll at hread
      rw [kind?_eq_some_iff.2 ⟨_, hnode₁, rfl⟩] at hread
      exact (Except.ok.inj hread).symm
    obtain ⟨h₂, hbytes⟩ := writeAll_in_scratch sound h₁ hname
      (HasScratch.checkPath_of_openWrite hwrite) short hchild hcompress
    refine ⟨h₂, ?_⟩
    unfold gzipOf
    rw [hbytes, bytesAt_of_file hlocate hnode]
    rfl
  | _ => cases regular

/-- What an archive of a regular file is made from is the same in the presence of a scratch
directory. -/
theorem archiveMembers_grows (sound : fs.Sound) (grows : fs.Grows fs')
    (hstat : fs.stat source = .ok n) (regular : n.isFile = true) (name : RawText) :
    archiveMembers fs' source name = archiveMembers fs source name := by
  obtain ⟨file, hlocate, hnode⟩ := stat_eq_ok.1 hstat
  have hstat' : fs'.stat source = .ok n :=
    stat_eq_ok.2 ⟨file, file_grows sound grows hlocate hnode regular⟩
  unfold archiveMembers
  rw [hstat, hstat', ownerAt_grows sound grows hlocate]

/-- **An archive that was made** holds the gzip member of the archive of the file. -/
theorem tarGzFile_in_scratch (sound : fs.Sound) (h : fs.HasScratch scratch id fs')
    (hname : name.IsStep) (hstat : fs.stat source = .ok n) (regular : n.isFile = true)
    (hrun : (tarGzFile source (scratch.join name)).perform fs' = (.ok (), fs'')) :
    fs.HasScratch scratch id fs'' ∧
      (fs''.bytesAt (scratch.join name)).toOption = tarGzOf fs source := by
  obtain ⟨base, output, fs₁, members, hbase, hwrite, hmembers, hcompress⟩ :=
    tarGzFile_eq_ok.1 hrun
  obtain ⟨h₁, hchild, short⟩ := h.openWrite sound hname hwrite
  -- The archive has been begun before the file is looked at, and does not disturb it.
  rw [archiveMembers_grows sound h₁.grows hstat regular] at hmembers
  obtain ⟨h₂, hbytes⟩ := writeAll_in_scratch sound h₁ hname
    (HasScratch.checkPath_of_openWrite hwrite) short hchild hcompress
  refine ⟨h₂, ?_⟩
  unfold tarGzOf
  rw [hbytes, hbase]
  dsimp only [bind, Option.bind]
  rw [hmembers]
  rfl

end ArtifactCourier.Compression
