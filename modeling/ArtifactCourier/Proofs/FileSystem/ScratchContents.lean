/-
  ArtifactCourier.Proofs.FileSystem.ScratchContents
  ──────────────────────────────────────
  **What is left on a disk, whatever failed.**

  A step that fails may leave something behind: a file that was begun, or one that was
  written in part.  While a scratch directory is in use all of this lies in it, under the
  names of the copies that are made there.

    • `FileSystem.SameFiles`, `Kept.sameFiles` — disks on which everything is kept show the same
      paths and the same contents,
    • `FileSystem.HoldsAtMost` — a scratch directory with files of some names at most,
    • `holdsAtMost_of_makeNode` — the directory when it is made,
    • `HoldsAtMost.openWrite`, `HoldsAtMost.writeAll` — it stays one when files are written,
    • `gzipFile_leaves`, `tarGzFile_leaves` — and whatever comes of making a copy.
-/
import ArtifactCourier.Proofs.Compression

namespace ArtifactCourier

namespace FileSystem

variable {fs fs' fs'' : FileSystem} {p : Path} {id dir file : NodeId} {name : RawText}
  {names : List RawText}

/-! ## §1. The same files. -/

/-- **Two disks show the same**: every path leads to the same place, and there is the same to be
found there. -/
structure SameFiles (fs fs' : FileSystem) : Prop where
  /-- A path leads where it led, or is refused as it was. -/
  paths : ∀ p followLast, fs'.resolve p followLast = fs.resolve p followLast
  /-- The bytes of a file, the entries of a directory and the target of a link are the same. -/
  kinds : ∀ p followLast id, fs.resolve p followLast = .ok (.found id) → fs'.kind? id = fs.kind? id
  contents : ∀ p, fs'.bytesAt p = fs.bytesAt p
  listings : ∀ p, fs'.readDirectory p = fs.readDirectory p

theorem Kept.sameFiles (sound : fs.Sound) (kept : fs.Kept fs') : fs.SameFiles fs' where
  paths := resolve_kept sound kept
  kinds p _ _ h := kept.kind? (follow_lt sound (sound.startOf_lt p) (resolve_eq_ok.1 h).2)
  contents := bytesAt_kept sound kept
  listings := readDirectory_kept sound kept

/-! ## §2. Entries. -/

/-- What a file holds says nothing about directories. -/
theorem entries_setContent (content : Content) :
    (fs.setContent id content).entries dir = fs.entries dir := by
  unfold entries kind?
  rcases node?_setContent content dir with same | ⟨old, mode, mtime, hnode, hnew⟩
  · rw [same]
  · rw [hnode, hnew]
    rfl

theorem entries_writeAll {data : ByteArray} (h : fs.writeAll id data = .ok fs') :
    fs'.entries dir = fs.entries dir := by
  unfold writeAll at h
  split at h
  · split at h
    · cases h
      rfl
    · cases h
  · cases h
    exact entries_setContent _

/-! ## §3. What a scratch directory holds. -/

/-- A disk is `fs` with one directory more, at `p`, that holds nothing but new files, and these
have some of the given names. -/
structure HoldsAtMost (fs : FileSystem) (p : Path) (id : NodeId) (names : List RawText)
    (fs' : FileSystem) : Prop extends fs.HasScratch p id fs' where
  named : ∀ e ∈ fs'.entries id, e.name ∈ names

/-- A directory that was just made holds nothing. -/
theorem holdsAtMost_of_makeNode (sound : fs.Sound) (kept : fs.Kept fs') {mode : Nat} {mtime : Int}
    (h : fs'.makeNode p (fun parent => ⟨.directory [] parent, mode, mtime⟩) = .ok fs'') :
    ∃ id, ∀ names, fs.HoldsAtMost p id names fs'' := by
  obtain ⟨id, scratch, empty⟩ := emptyScratch_of_makeNode sound kept h
  refine ⟨id, fun names => ⟨scratch, ?_⟩⟩
  rw [empty]
  exact fun e he => absurd he List.not_mem_nil

namespace HoldsAtMost

/-- **A file that is opened for writing** has one of the names. -/
theorem openWrite (sound : fs.Sound) (h : fs.HoldsAtMost p id names fs') (hname : name.IsStep)
    (hmem : name ∈ names) (hopen : fs'.openWrite (p.join name) = .ok (file, fs'')) :
    fs.HoldsAtMost p id names fs'' ∧ fs''.child? id name = some file := by
  obtain ⟨scratch, hchild, short⟩ := h.toHasScratch.openWrite sound hname hopen
  refine ⟨⟨scratch, ?_⟩, hchild⟩
  have path := HasScratch.checkPath_of_openWrite hopen
  obtain ⟨es, parent, _, _, hnode⟩ := isDirectoryAt_iff.1 h.directory
  unfold FileSystem.openWrite at hopen
  split at hopen
  · obtain ⟨_, -, hopen⟩ := bind_eq_ok.1 hopen
    cases hopen
  rw [h.resolve_join sound hname path, if_neg short] at hopen
  cases hold : fs'.child? id name with
  | some old =>
    -- The file is there, and loses its contents.
    obtain ⟨_, content, mode, mtime, hfile⟩ := h.file_of_child? hold
    have hkind : fs'.kind? old = some (.file content) := kind?_eq_some_iff.2 ⟨_, hfile, rfl⟩
    rw [hold] at hopen
    simp only [bind, Except.bind, hkind] at hopen
    cases hopen
    rw [entries_setContent]
    exact h.named
  | none =>
    -- The file is new, and the directory has one entry more.
    rw [hold] at hopen
    simp only [bind, Except.bind] at hopen
    cases hopen
    have added : (fs'.addNode (Node.file .empty)).2.node? id = _ :=
      (node?_addNode_of_lt _ (node?_lt hnode)).trans hnode
    have hself : ((fs'.addNode (Node.file .empty)).2.link id name fs'.nodes.size).node? id = _ :=
      node?_link_self added
    intro e he
    have he' : e ∈ ((fs'.addNode (Node.file .empty)).2.link id name fs'.nodes.size).entries id := he
    rw [entries_of_kind? (kind?_eq_some_iff.2 ⟨_, hself, rfl⟩), mem_insertEntry_iff] at he'
    rcases he' with rfl | he'
    · exact hmem
    · rw [← entries_of_kind? (kind?_eq_some_iff.2 ⟨_, hnode, rfl⟩)] at he'
      exact h.named e he'

/-- **Writing** adds no name. -/
theorem writeAll (h : fs.HoldsAtMost p id names fs') (hchild : fs'.child? id name = some file)
    (data : ByteArray) :
    ∃ fs'', fs'.writeAll file data = .ok fs'' ∧ fs.HoldsAtMost p id names fs'' := by
  obtain ⟨fs'', hwrite, scratch, -⟩ := h.toHasScratch.writeAll hchild data
  refine ⟨fs'', hwrite, scratch, ?_⟩
  rw [entries_writeAll hwrite]
  exact h.named

end HoldsAtMost

end FileSystem

/-! ## §4. Copies, whatever comes of them. -/

namespace Compression

open FileSystem

variable {fs disk : FileSystem} {scratch : Path} {id : NodeId} {name : RawText}
  {names : List RawText}

theorem perform_writeRemains (id : NodeId) (pieces : List ByteArray) (fs : FileSystem) :
    (writeRemains id pieces).perform fs =
      (.ok (), (fs.writeAll id (Gzip.encode (joined pieces))).toOption.getD fs) := by
  unfold writeRemains
  rw [Disk.perform_bind, Disk.perform_get]
  dsimp only
  rw [Gzip.encodePieces_eq]
  cases fs.writeAll id (Gzip.encode (joined pieces)) <;> rfl

section leaves

variable (sound : fs.Sound) (h : fs.HoldsAtMost scratch id names disk) {output : NodeId}
  (hchild : disk.child? id name = some output)

include h hchild

theorem writeRemains_leaves (pieces : List ByteArray) :
    fs.HoldsAtMost scratch id names ((writeRemains output pieces).perform disk).2 := by
  obtain ⟨written, hwrite, holds⟩ := h.writeAll hchild (Gzip.encode (joined pieces))
  rw [perform_writeRemains, hwrite]
  exact holds

theorem writeCompressed_leaves (dest : Path) (pieces : List Piece) :
    fs.HoldsAtMost scratch id names ((writeCompressed dest output pieces).perform disk).2 := by
  obtain ⟨written, hwrite, holds⟩ := h.writeAll hchild (Gzip.encode (textOf pieces))
  rw [perform_writeCompressed, hwrite]
  exact holds

omit hchild

include sound

variable (hname : name.IsStep) (hmem : name ∈ names)

include hname hmem

/-- **Whatever comes of making a gzip copy**, nothing is left but what lies in the scratch
directory. -/
theorem gzipFile_leaves (source : Path) :
    fs.HoldsAtMost scratch id names ((gzipFile source (scratch.join name)).perform disk).2 := by
  unfold gzipFile
  rw [Disk.perform_bind, Disk.perform_look]
  cases disk.openRead source with
  | error e => exact h
  | ok input =>
    dsimp only
    rw [Disk.perform_bind, Disk.perform_change]
    rcases hopen : disk.openWrite (scratch.join name) with e | ⟨output, begun⟩
    · exact h
    obtain ⟨holds, hchild⟩ := h.openWrite sound hname hmem hopen
    dsimp only
    rw [Disk.perform_bind, Disk.perform_get]
    dsimp only
    cases begun.readPieces input bufferSize with
    | error e =>
      dsimp only
      rw [Disk.perform_bind, perform_writeRemains]
      have left := writeRemains_leaves holds hchild []
      rwa [perform_writeRemains] at left
    | ok pieces =>
      dsimp only
      have left := writeCompressed_leaves holds hchild (scratch.join name)
        (pieces.map (⟨·, .compress source⟩))
      rw [Disk.perform_bind]
      rcases hdone : (writeCompressed (scratch.join name) output
        (pieces.map (⟨·, .compress source⟩))).perform begun with ⟨e | _, after⟩ <;>
        rw [hdone] at left <;> exact left

/-- **Whatever comes of making an archive**, nothing is left but what lies in the scratch
directory. -/
theorem tarGzFile_leaves (source : Path) :
    fs.HoldsAtMost scratch id names ((tarGzFile source (scratch.join name)).perform disk).2 := by
  unfold tarGzFile
  cases source.fileName? with
  | none => exact h
  | some base =>
    dsimp only
    rw [Disk.perform_bind, Disk.perform_change]
    rcases hopen : disk.openWrite (scratch.join name) with e | ⟨output, begun⟩
    · exact h
    obtain ⟨holds, hchild⟩ := h.openWrite sound hname hmem hopen
    dsimp only
    rw [Disk.perform_bind, Disk.perform_get]
    dsimp only
    cases archiveMembers begun source base with
    | error refusal =>
      dsimp only
      rw [Disk.perform_bind, perform_writeRemains]
      have left := writeRemains_leaves holds hchild
        (memberPieces (arrivingAt begun source) refusal.written ++ [Tar.ending])
      rwa [perform_writeRemains] at left
    | ok members => exact writeCompressed_leaves holds hchild _ _

end leaves

end Compression
end ArtifactCourier
