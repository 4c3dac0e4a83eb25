/-
  ArtifactCourier.Proofs.Compression.SoleMember
  ──────────────────────────────────────
  **What a tar.gz copy calls its file.**

  Whatever the source leads to, a copy that was made archives it as one member.  Files and
  directories are archived under the base name, so no directory shows in the name.  A pipe or a
  device is archived under the path that led to it, and this is its base name only where no
  slash is left of the path.

    • `FileSystem.Sized` — lengths that the operating system can have given,
    • `tarGzFile_member_name` — the law,
    • `pipe_stored_with_directory` — a pipe whose directory shows.
-/
import ArtifactCourier.Proofs.Compression.TarGzCopy
import ArtifactCourier.Proofs.Tar.PathNames

namespace ArtifactCourier

/-! ## §1. Lengths. -/

namespace FileSystem

variable {fs opened : FileSystem} {dest : Path} {id : NodeId}

/-- **Lengths are 64-bit numbers.** -/
def Sized (fs : FileSystem) : Prop := ∀ n ∈ fs.nodes.toList, n.size < 2 ^ 64

instance (fs : FileSystem) : Decidable fs.Sized := inferInstanceAs (Decidable (∀ n ∈ _, _))

theorem Sized.of_node? (sized : fs.Sized) {n : Node} (h : fs.node? id = some n) : n.size < 2 ^ 64 :=
  sized n (Array.mem_toList_iff.2 (Array.mem_of_getElem? h))

theorem Sized.of_nodes (h : ∀ id n, fs.node? id = some n → n.size < 2 ^ 64) : fs.Sized := by
  intro n hn
  obtain ⟨id, hid⟩ := Array.mem_iff_getElem?.1 (Array.mem_toList_iff.1 hn)
  exact h id n hid

/-- What is opened for writing holds nothing, and all else is as long as it was. -/
theorem Sized.openWrite (sized : fs.Sized) (h : fs.openWrite dest = .ok (id, opened)) :
    opened.Sized := by
  refine .of_nodes fun other n hn => ?_
  obtain ⟨-, rfl⟩ | ⟨dir, name, free, made⟩ := openWrite_cases h
  · rcases @node?_setContent fs id .empty other with same | ⟨old, mode, mtime, -, emptied⟩
    · exact sized.of_node? (same ▸ hn)
    · cases emptied.symm.trans hn
      exact Nat.two_pow_pos 64
  · obtain ⟨rfl, rfl⟩ := Prod.mk.inj made
    obtain ⟨directory, unused⟩ := free_of_follow (resolve_eq_ok.1 free).2
    obtain ⟨grows, -, new⟩ := grows_create directory unused (Node.file .empty)
    have within : other < fs.nodes.size + 1 := by
      rw [← size_create directory (Node.file .empty)]
      exact node?_lt hn
    by_cases last : other = fs.nodes.size
    · subst last
      cases new.symm.trans hn
      exact Nat.two_pow_pos 64
    · have old : other < fs.nodes.size := Nat.lt_of_le_of_ne (Nat.le_of_lt_succ within) last
      cases hdir : fs.isDirectoryAt other with
      | false => exact sized.of_node? ((grows.node other old hdir).symm.trans hn)
      | true =>
        -- A directory stays one, whatever its entries are.
        obtain ⟨entries, parent, mode, mtime, still⟩ :=
          isDirectoryAt_iff.1 (grows.directory other hdir)
        cases still.symm.trans hn
        exact Nat.two_pow_pos 64

end FileSystem

namespace Compression

open FileSystem

variable {fs fs' : FileSystem} {source dest : Path}

/-! ## §2. The law. -/

/-- **What a tar.gz copy calls its file.**  A copy that was made is exactly one gzip member, of a
stream that archives one thing and nothing else.  A file or a directory is archived under the
base name of the source.  Anything else is archived under the source's path, and so under the
base name only if the path is written without a slash.  What the source leads to is looked at
once the place of the copy has been opened. -/
theorem tarGzFile_member_name (sized : fs.Sized)
    (hrun : (tarGzFile source dest).perform fs = (.ok (), fs')) :
    ∃ base member stream seen m,
      source.fileName? = some base ∧ Path.slash ∉ base.bytes ∧
      fs.writeFile dest member = .ok fs' ∧
      (fs.CanWriteFile dest → fs'.bytesAt dest = .ok member) ∧
      Gzip.Member member stream ∧ Tar.SoleMember stream m ∧
      (∃ output opened, fs.openWrite dest = .ok (output, opened) ∧ opened.stat source = .ok seen) ∧
      (seen.isFile = true ∨ seen.isDirectory = true → m.name = base.bytes) ∧
      (seen.isFile = false → seen.isDirectory = false → m.name = Tar.pathName source ∧
        (m.name = base.bytes ↔ Path.slash ∉ Tar.pathName source)) := by
  obtain ⟨base, output, opened, members, hbase, hwrite, hmembers, hcompress⟩ :=
    tarGzFile_eq_ok.1 hrun
  obtain ⟨step, -⟩ := Path.isStep_of_fileName? hbase
  have written := writeFile_of_openWrite hwrite hcompress
  -- The source leads somewhere, so its path is one that the operating system accepts.
  cases hseen : opened.stat source with
  | error e =>
    unfold archiveMembers at hmembers
    rw [hseen] at hmembers
    cases hmembers
  | ok seen =>
    obtain ⟨file, hlocate, hnode⟩ := stat_eq_ok.1 hseen
    obtain ⟨plain, short⟩ := plain_of_checkPath (resolve_eq_ok.1 (locate_eq_ok.1 hlocate)).1
    have length : seen.size < Tar.maxNumber :=
      Nat.lt_trans ((sized.openWrite hwrite).of_node? hnode) (by decide)
    obtain ⟨m, sole, hname⟩ := Tar.exists_soleMember hbase plain short length
      ((archiveMembers_eq_ok hseen).1 hmembers)
    refine ⟨base, _, _, seen, m, hbase, step.2, written, bytesAt_of_writeFile written,
      Gzip.member_encode _, sole, ⟨output, opened, hwrite, hseen⟩, ?_, ?_⟩
    · intro own
      have naming : Tar.namingPath source base seen = ⟨base⟩ := if_pos (by simpa using own)
      rw [hname, naming, Tar.pathName_step step]
    · intro noFile noDirectory
      have naming : Tar.namingPath source base seen = source :=
        if_neg (by simp [noFile, noDirectory])
      rw [naming] at hname
      refine ⟨hname, ?_⟩
      rw [hname]
      exact Tar.pathName_eq_iff hbase

/-- The file behind the link of `copyDisk` is called as the link is. -/
theorem link_member_name :
    ∃ fs' member stream m, copyDisk.Sized ∧
      (tarGzFile (Path.ofString "link") (Path.ofString "a.gz")).perform copyDisk = (.ok (), fs') ∧
      fs'.bytesAt (Path.ofString "a.gz") = .ok member ∧ Gzip.Member member stream ∧
      Tar.SoleMember stream m ∧ m.name = (RawText.ofString "link").bytes := by
  have sized : copyDisk.Sized := by decide
  have hbase : (Path.ofString "link").fileName? = some (RawText.ofString "link") := by cbv
  have hseen : openedCopyDisk.stat (Path.ofString "link")
      = .ok ⟨.file scattered, 0o640, 7⟩ := by cbv
  have hname : Tar.MemberName.ofPath ⟨RawText.ofString "link"⟩
      = .ok ⟨(RawText.ofString "link").bytes, none⟩ := by cbv
  obtain ⟨members, hmembers⟩ : ∃ members, archiveMembers openedCopyDisk (Path.ofString "link")
      (RawText.ofString "link") = .ok members := by
    simp only [archiveMembers_eq_ok hseen, Tar.membersOf, Tar.underName, hname]
    exact ⟨_, rfl⟩
  have hrun := tarGzFile_eq_ok.2
    ⟨_, 2, _, _, hbase, openWrite_copyDisk, hmembers, writeAll_openedCopyDisk _⟩
  obtain ⟨base, member, stream, seen, m, hbase', -, -, found, whole, sole,
    ⟨output, opened, hwrite, hseen'⟩, own, -⟩ := tarGzFile_member_name sized hrun
  obtain rfl := Option.some.inj (hbase.symm.trans hbase')
  obtain ⟨rfl, rfl⟩ := Prod.mk.inj (Except.ok.inj (openWrite_copyDisk.symm.trans hwrite))
  obtain rfl := Except.ok.inj (hseen.symm.trans hseen')
  exact ⟨_, member, stream, m, sized, hrun, found canWriteFile_copyDisk, whole, sole,
    own (.inl rfl)⟩

/-! ## §3. A pipe in a directory. -/

/-- A disk with a directory, a pipe in it, and a file in the place of the copy. -/
def pipeDisk : FileSystem where
  nodes := #[
    ⟨.directory [⟨RawText.ofString "d", 1⟩, ⟨RawText.ofString "o", 3⟩] FileSystem.root,
      Node.directoryMode, 0⟩,
    ⟨.directory [⟨RawText.ofString "p", 2⟩] FileSystem.root, Node.directoryMode, 0⟩,
    ⟨.fifo, 0o644, 0⟩,
    Node.file .empty]
  workingDirectory := FileSystem.root
  workingPath := Path.ofString "/"
  tempPath := Path.ofString "/"

/-- **A pipe is stored with its directory**: the archive of `d/p` has one member, which is called
`d/p` and not `p`. -/
theorem pipe_stored_with_directory :
    ∃ fs' member stream m,
      (tarGzFile (Path.ofString "d/p") (Path.ofString "o")).perform pipeDisk = (.ok (), fs') ∧
      fs'.bytesAt (Path.ofString "o") = .ok member ∧ Gzip.Member member stream ∧
      Tar.SoleMember stream m ∧ m.name = (RawText.ofString "d/p").bytes ∧
      (Path.ofString "d/p").fileName? = some (RawText.ofString "p") ∧
      m.name ≠ (RawText.ofString "p").bytes := by
  have hbase : (Path.ofString "d/p").fileName? = some (RawText.ofString "p") := by cbv
  have hwrite : pipeDisk.openWrite (Path.ofString "o")
      = .ok (3, pipeDisk.setContent 3 .empty) := by cbv
  have hkind : (pipeDisk.setContent 3 .empty).kind? 3 = some (.file .empty) := by cbv
  have hseen : (pipeDisk.setContent 3 .empty).stat (Path.ofString "d/p")
      = .ok ⟨.fifo, 0o644, 0⟩ := by cbv
  have hname : Tar.MemberName.ofPath (Path.ofString "d/p")
      = .ok ⟨(RawText.ofString "d/p").bytes, none⟩ := by cbv
  have plain : 0 ∉ (Path.ofString "d/p").bytes := by decide
  have spelled : Tar.pathName (Path.ofString "d/p") = (RawText.ofString "d/p").bytes := by cbv
  obtain ⟨members, hmembers⟩ : ∃ members, archiveMembers (pipeDisk.setContent 3 .empty)
      (Path.ofString "d/p") (RawText.ofString "p") = .ok members := by
    simp only [archiveMembers_eq_ok hseen, Tar.membersOf, Tar.underName, hname]
    exact ⟨_, rfl⟩
  have hcompress (text : ByteArray) : ∃ fs',
      (pipeDisk.setContent 3 .empty).writeAll 3 text = .ok fs' := by
    unfold writeAll
    rw [hkind]
    exact ⟨_, rfl⟩
  obtain ⟨fs', hfs'⟩ := hcompress (Gzip.encode (Tar.archive members))
  obtain ⟨m, sole, hm⟩ := Tar.exists_soleMember hbase plain (by decide) (by decide)
    ((archiveMembers_eq_ok hseen).1 hmembers)
  have named : m.name = (RawText.ofString "d/p").bytes := hm.trans spelled
  have found := bytesAt_of_writeFile (writeFile_of_openWrite hwrite hfs')
    ⟨3, _, _, hwrite, hkind⟩
  refine ⟨fs', _, _, m, tarGzFile_eq_ok.2 ⟨_, 3, _, _, hbase, hwrite, hmembers, hfs'⟩, found,
    Gzip.member_encode _, sole, named, hbase, ?_⟩
  rw [named]
  decide

end Compression
end ArtifactCourier
