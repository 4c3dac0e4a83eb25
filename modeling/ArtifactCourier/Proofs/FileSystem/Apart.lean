/-
  ArtifactCourier.Proofs.FileSystem.Apart
  ──────────────────────────────────────
  **A file that is read while another one is written.**

  Opening a file for writing empties it, and writing it changes what it holds.  Any other
  regular file stays where it was and as it was, whether the written one was there before or
  was made for the purpose.

    • `openWrite_cases` — what opening a file for writing does to the disk,
    • `file_openWrite`, `file_writeAll` — a regular file, while one is opened and written,
    • `file_writeFile` — a file that is written leaves the others alone.
-/
import ArtifactCourier.Proofs.FileSystem.Rewrite

namespace ArtifactCourier.FileSystem

variable {fs opened fs' : FileSystem} {source dest : Path} {id file : NodeId} {content : Content}
  {mode : Nat} {mtime : Int}

/-- A file that is opened for writing is emptied, or it is made under a name that was free. -/
theorem openWrite_cases (h : fs.openWrite dest = .ok (id, opened)) :
    (fs.locate dest = .ok id ∧ opened = fs.setContent id .empty) ∨
      ∃ dir name, fs.resolve dest true = .ok (.absent dir name false) ∧
        (id, opened) = fs.create dir name (Node.file .empty) := by
  unfold openWrite at h
  split at h
  · obtain ⟨_, -, h⟩ := bind_eq_ok.1 h
    cases h
  · obtain ⟨found | ⟨dir, name, slash⟩, hresolve, h⟩ := bind_eq_ok.1 h
    · dsimp only at h
      split at h
      · cases h
      · cases h
      · cases h
        exact .inl ⟨locate_eq_ok.2 hresolve, rfl⟩
      · cases h
    · dsimp only at h
      split at h
      · cases h
      · next noSlash =>
        obtain rfl : slash = false := by simpa using noSlash
        exact .inr ⟨dir, name, hresolve, (Except.ok.inj h).symm⟩

theorem locate_setContent (new : Content) (p : Path) :
    (fs.setContent id new).locate p = fs.locate p := by
  unfold locate
  rw [resolve_setContent]

theorem node?_setContent_of_ne (new : Content) (other : file ≠ id) :
    (fs.setContent id new).node? file = fs.node? file := by
  unfold setContent
  split
  · exact node?_setNode_of_ne _ other
  · rfl

/-- **A regular file while one is opened for writing**: it is where it was, and as it was unless it
is the one that was opened. -/
theorem file_openWrite (sound : fs.Sound) (h : fs.openWrite dest = .ok (id, opened))
    (hlocate : fs.locate source = .ok file)
    (hnode : fs.node? file = some ⟨.file content, mode, mtime⟩) :
    opened.locate source = .ok file ∧ (fs.locate dest = .ok file ↔ id = file) ∧
      opened.node? file = some ⟨.file (if id = file then .empty else content), mode, mtime⟩ := by
  obtain ⟨there, rfl⟩ | ⟨dir, name, free, made⟩ := openWrite_cases h
  · refine ⟨(locate_setContent _ _).trans hlocate, by rw [there, Except.ok.injEq], ?_⟩
    split
    · next same =>
      subst same
      rw [setContent_eq hnode]
      exact node?_setNode_self _ (node?_lt hnode)
    · next other => exact (node?_setContent_of_ne _ (Ne.symm other)).trans hnode
  · -- The file that was made is a new one, and the disk holds all that it held.
    obtain ⟨rfl, rfl⟩ := Prod.mk.inj made
    have other : fs.nodes.size ≠ file := Nat.ne_of_gt (node?_lt hnode)
    obtain ⟨directory, unused⟩ := free_of_follow (resolve_eq_ok.1 free).2
    have grows := (grows_create directory unused (Node.file .empty)).1
    obtain ⟨hlocate', hnode'⟩ := file_grows sound grows hlocate hnode rfl
    have nowhere : fs.locate dest ≠ .ok file := by
      rw [Ne, locate_eq_ok, free]
      nofun
    refine ⟨hlocate', iff_of_false nowhere other, ?_⟩
    rw [if_neg other]
    exact hnode'

/-- What is written to one file leaves all others as they were. -/
theorem file_writeAll (source : Path) (file : NodeId) {data : ByteArray}
    (h : fs.writeAll id data = .ok fs') :
    fs'.locate source = fs.locate source ∧ (file ≠ id → fs'.node? file = fs.node? file) := by
  unfold writeAll at h
  split at h
  · split at h
    · cases h
      exact ⟨rfl, fun _ => rfl⟩
    · cases h
  · cases h
    exact ⟨locate_setContent _ _, node?_setContent_of_ne _⟩

/-- **A file that is written leaves the others alone.** -/
theorem file_writeFile (sound : fs.Sound) {data : ByteArray} (h : fs.writeFile dest data = .ok fs')
    (hlocate : fs.locate source = .ok file)
    (hnode : fs.node? file = some ⟨.file content, mode, mtime⟩)
    (apart : fs.locate dest ≠ fs.locate source) :
    fs'.locate source = .ok file ∧ fs'.node? file = some ⟨.file content, mode, mtime⟩ := by
  obtain ⟨⟨id, opened⟩, hopen, hwrite⟩ := bind_eq_ok.1 h
  obtain ⟨hlocate', same, hnode'⟩ := file_openWrite sound hopen hlocate hnode
  have other : ¬ id = file := by
    rw [← same, ← hlocate]
    exact apart
  obtain ⟨still, unchanged⟩ := file_writeAll source file hwrite
  rw [if_neg other] at hnode'
  exact ⟨still.trans hlocate', (unchanged (Ne.symm other)).trans hnode'⟩

end ArtifactCourier.FileSystem
