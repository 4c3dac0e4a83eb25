/-
  ArtifactCourier.Proofs.FileSystem.Rewrite
  ──────────────────────────────────────
  **A file that was written is read back.**

  A path that could be opened for writing leads to the file that was opened, whether it was
  there or was made; and writing a file leads no path astray.

    • `resolve_setContent` — what files hold says nothing about paths,
    • `grows_create` — a new file under a free name loses nothing,
    • `resolve_openWrite` — a path leads to what was opened there for writing,
    • `bytesAt_writeFile` — what is written at a path is read from it.
-/
import ArtifactCourier.Proofs.FileSystem.Reordered

namespace ArtifactCourier.FileSystem

variable {fs fs' : FileSystem} {p : Path} {id dir : NodeId} {name : RawText}

/-! ## §1. Rewriting a file. -/

theorem alike_setContent (content : Content) : fs.Alike (fs.setContent id content) := by
  unfold setContent
  split <;> exact ⟨rfl, rfl, rfl, rfl, rfl⟩

/-- **What files hold says nothing about paths.** -/
theorem resolve_setContent (content : Content) (p : Path) (followLast : Bool) :
    (fs.setContent id content).resolve p followLast = fs.resolve p followLast := by
  have cases : ∀ other, (fs.setContent id content).node? other = fs.node? other ∨
      ∃ old mode mtime, fs.node? other = some ⟨.file old, mode, mtime⟩ ∧
        (fs.setContent id content).node? other = some ⟨.file content, mode, mtime⟩ :=
    fun other => node?_setContent content other
  unfold resolve
  rw [(alike_setContent content).startOf]
  congr 1
  funext _
  -- The way of a path asks for directories, entries, parents and links, and files are none.
  refine follow_congr ?_ ?_ ?_ ?_ _ _ _ _
  · intro other
    unfold isDirectoryAt
    rcases cases other with same | ⟨old, mode, mtime, hnode, hnew⟩
    · rw [same]
    · rw [hnode, hnew]
      rfl
  · intro other search
    unfold child? entries kind?
    rcases cases other with same | ⟨old, mode, mtime, hnode, hnew⟩
    · rw [same]
    · rw [hnode, hnew]
      rfl
  · intro other
    unfold parentOf kind?
    rcases cases other with same | ⟨old, mode, mtime, hnode, hnew⟩
    · rw [same]
    · rw [hnode, hnew]
      rfl
  · intro other
    unfold linkTarget? kind?
    rcases cases other with same | ⟨old, mode, mtime, hnode, hnew⟩
    · rw [same]
    · rw [hnode, hnew]
      rfl

/-! ## §2. Opening for writing. -/

/-- A path that ends at a free name ends in a directory without that name. -/
theorem free_of_follow {followLast slash : Bool} {links : Nat} {start : NodeId}
    {segments : List (List UInt8)}
    (h : fs.follow followLast links start segments = .ok (.absent dir name slash)) :
    fs.isDirectoryAt dir = true ∧ fs.child? dir name = none := by
  fun_induction FileSystem.follow fs followLast links start segments with
  | case3 _ _ _ _ _ _ ih => exact ih h
  | case4 _ _ _ _ _ ih => exact ih h
  | case6 _ _ _ _ there _ _ _ hchild =>
    cases h
    exact ⟨by simpa using there, hchild⟩
  | case10 _ _ _ _ _ _ _ _ _ _ _ _ _ ih => exact ih (by simpa using h)
  | case11 _ _ _ _ _ _ _ _ _ _ _ _ ih => exact ih h
  | _ => cases h

theorem Grows.of_kept {mid : FileSystem} (kept : fs.Kept mid) (grows : mid.Grows fs') :
    fs.Grows fs' where
  toAlike := kept.toAlike.trans grows.toAlike
  node i hi hdir :=
    (grows.node i (Nat.lt_of_lt_of_le hi kept.size_le) (by rwa [kept.isDirectoryAt hi])).trans
      (kept.node i hi)
  directory i hi := grows.directory i (by rwa [kept.isDirectoryAt (isDirectoryAt_lt hi)])
  parentOf i hi := by
    have hlt := isDirectoryAt_lt hi
    rw [grows.parentOf i (by rwa [kept.isDirectoryAt hlt]), kept.parentOf hlt]
  child? i search child hchild := by
    have hlt := isDirectoryAt_lt (isDirectoryAt_of_child? hchild)
    exact grows.child? i search child (by rwa [kept.child? hlt])

/-- **A new node under a free name loses nothing**, and is found there. -/
theorem grows_create (h : fs.isDirectoryAt dir = true) (free : fs.child? dir name = none)
    (n : Node) :
    fs.Grows (fs.create dir name n).2 ∧
      (fs.create dir name n).2.child? dir name = some fs.nodes.size ∧
      (fs.create dir name n).2.node? fs.nodes.size = some n := by
  have kept := (Kept.refl fs).addNode n
  have hlt := isDirectoryAt_lt h
  have directory : (fs.addNode n).2.isDirectoryAt dir = true := by rwa [kept.isDirectoryAt hlt]
  have still : (fs.addNode n).2.child? dir name = none := by rwa [kept.child? hlt]
  obtain ⟨es, parent, mode, mtime, hnode⟩ := isDirectoryAt_iff.1 directory
  exact ⟨.of_kept kept (grows_link directory still _), child?_link_self directory still,
    (node?_link_of_ne hnode (Nat.ne_of_gt hlt)).trans (node?_addNode_self n)⟩

theorem size_create (h : fs.isDirectoryAt dir = true) (n : Node) :
    (fs.create dir name n).2.nodes.size = fs.nodes.size + 1 := by
  have directory : (fs.addNode n).2.isDirectoryAt dir = true := by
    rwa [((Kept.refl fs).addNode n).isDirectoryAt (isDirectoryAt_lt h)]
  exact (size_link directory).trans (Array.size_push _)

theorem linkTarget?_of_node? {n : Node} (h : fs.node? id = some n) (noLink : n.isSymlink = false) :
    fs.linkTarget? id = none := by
  unfold linkTarget? kind?
  rw [h]
  obtain ⟨kind, mode, mtime⟩ := n
  cases kind <;> first | rfl | cases noLink

/-- There is no link behind the last node. -/
theorem linkTarget?_of_le (h : fs.nodes.size ≤ id) : fs.linkTarget? id = none := by
  have none : fs.node? id = none := Array.getElem?_eq_none h
  unfold linkTarget? kind?
  rw [none]
  rfl

/-- A new node that is no link changes nothing about links. -/
theorem linkTarget?_create (h : fs.isDirectoryAt dir = true) (free : fs.child? dir name = none)
    {n : Node} (noLink : n.isSymlink = false) (other : NodeId) :
    (fs.create dir name n).2.linkTarget? other = fs.linkTarget? other := by
  obtain ⟨grows, -, node⟩ := grows_create h free n
  rcases Nat.lt_trichotomy other fs.nodes.size with old | rfl | later
  · exact grows.linkTarget? old
  · rw [linkTarget?_of_node? node noLink, linkTarget?_of_le (Nat.le_refl _)]
  · rw [linkTarget?_of_le (Nat.le_of_lt later), linkTarget?_of_le]
    rw [size_create h]
    exact later

/-- **A path that ended at a free name leads to the node that was made there**, unless that is a
symbolic link. -/
theorem resolve_create (h : fs.resolve p true = .ok (.absent dir name false)) {n : Node}
    (noLink : n.isSymlink = false) :
    (fs.create dir name n).2.resolve p true = .ok (.found fs.nodes.size) := by
  obtain ⟨path, follow⟩ := resolve_eq_ok.1 h
  obtain ⟨directory, free⟩ := free_of_follow follow
  obtain ⟨grows, entry, node⟩ := grows_create directory free n
  have sameLinks := linkTarget?_create directory free noLink
  have plain : (fs.create dir name n).2.linkTarget? fs.nodes.size = none := by
    rw [sameLinks]
    exact linkTarget?_of_le (Nat.le_refl _)
  refine resolve_eq_ok.2 ⟨path, ?_⟩
  rw [grows.startOf]
  refine follow_grows_to grows (fun _ _ child _ => sameLinks child) follow nofun ?_
  intro links _ segment rest there isName short _ given
  -- No slash follows the name, so the path ends here.
  obtain ⟨rfl, rfl, last⟩ := Resolved.absent.inj given
  obtain rfl : rest = [] := by simpa using last
  rw [follow_entry (grows.directory _ there) isName short entry plain, if_pos (by simp), follow_nil]

/-- Opening a file for writing changes nodes only. -/
theorem alike_openWrite (h : fs.openWrite p = .ok (id, fs')) : fs.Alike fs' := by
  unfold openWrite at h
  split at h
  · obtain ⟨_, -, h⟩ := bind_eq_ok.1 h
    cases h
  · obtain ⟨found | ⟨dir, name, slash⟩, hresolve, h⟩ := bind_eq_ok.1 h
    · dsimp only at h
      split at h <;> cases h
      exact alike_setContent _
    · dsimp only at h
      split at h <;> cases h
      obtain ⟨directory, free⟩ := free_of_follow (resolve_eq_ok.1 hresolve).2
      exact (grows_create directory free _).1.toAlike

/-- **A path leads to what was opened there for writing.** -/
theorem resolve_openWrite (h : fs.openWrite p = .ok (id, fs')) :
    fs'.resolve p true = .ok (.found id) := by
  unfold openWrite at h
  split at h
  · obtain ⟨_, -, h⟩ := bind_eq_ok.1 h
    cases h
  · obtain ⟨found | ⟨dir, name, slash⟩, hresolve, h⟩ := bind_eq_ok.1 h
    · dsimp only at h
      split at h
      · cases h
      · cases h
      · cases h
        rw [resolve_setContent]
        exact hresolve
      · cases h
    · dsimp only at h
      split at h
      · cases h
      · next noSlash =>
        cases h
        obtain rfl : slash = false := by simpa using noSlash
        exact resolve_create hresolve rfl

/-! ## §3. Writing and reading. -/

/-- A regular file can be written at the path: one that is there, or a new one. -/
def CanWriteFile (fs : FileSystem) (p : Path) : Prop :=
  ∃ id fs' content, fs.openWrite p = .ok (id, fs') ∧ fs'.kind? id = some (.file content)

/-- A regular file takes all that is written. -/
theorem writeAll_of_file {content : Content} (hkind : fs.kind? id = some (.file content))
    (data : ByteArray) : fs.writeAll id data = .ok (fs.setContent id (.ofBytes data)) := by
  unfold writeAll
  rw [hkind]

theorem writeFile_of_file {opened : FileSystem} {content : Content}
    (hopen : fs.openWrite p = .ok (id, opened)) (hkind : opened.kind? id = some (.file content))
    (data : ByteArray) : fs.writeFile p data = .ok (opened.setContent id (.ofBytes data)) := by
  unfold writeFile
  rw [hopen]
  exact writeAll_of_file hkind data

/-- **What is written at a path is read from it.** -/
theorem bytesAt_writeFile (h : fs.CanWriteFile p) (data : ByteArray) :
    ∃ fs', fs.writeFile p data = .ok fs' ∧ fs'.bytesAt p = .ok data := by
  obtain ⟨id, opened, old, hopen, hkind⟩ := h
  obtain ⟨⟨_, mode, mtime⟩, hnode, rfl⟩ := kind?_eq_some_iff.1 hkind
  refine ⟨_, writeFile_of_file hopen hkind data, ?_⟩
  have there : (opened.setContent id (.ofBytes data)).locate p = .ok id := by
    rw [locate_eq_ok, resolve_setContent]
    exact resolve_openWrite hopen
  have now : (opened.setContent id (.ofBytes data)).node? id
      = some ⟨.file (.ofBytes data), mode, mtime⟩ := by
    rw [setContent_eq hnode]
    exact node?_setNode_self _ (node?_lt hnode)
  exact bytesAt_of_file there now

end ArtifactCourier.FileSystem
