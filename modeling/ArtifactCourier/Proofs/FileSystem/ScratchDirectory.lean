/-
  ArtifactCourier.Proofs.FileSystem.ScratchDirectory
  ──────────────────────────────────────
  **A directory that is made, filled and taken away again.**

  `HasScratch fs p id fs'` says that a disk is `fs` with one directory more, at `p`, which
  holds nothing but new files.  Making a directory establishes it, writing files into the
  directory preserves it, and taking the directory away brings `fs` back.

    • `hasScratch_of_makeNode` — making the directory,
    • `HasScratch.grows` — what was on the disk can still be read,
    • `HasScratch.openWrite`, `HasScratch.writeAll` — writing into it,
    • `HasScratch.bytesAt` — reading back what was written,
    • `HasScratch.removeTree` — taking it away.
-/
import ArtifactCourier.Proofs.FileSystem.Link
import ArtifactCourier.Proofs.Path

namespace ArtifactCourier.FileSystem

variable {fs fs' fs'' : FileSystem} {p : Path} {id dir file : NodeId} {name : RawText}

/-! ## §1. Where an entry can be made. -/

theorem bytes_ne_nil_of_checkPath (h : checkPath p = .ok ()) : p.bytes ≠ [] := by
  intro hnil
  unfold checkPath at h
  rw [hnil] at h
  cases h

theorem holder_eq_ok :
    fs.holder p = .ok (dir, name) ↔
      checkPath p = .ok () ∧ fs.isDirectoryAt dir = true ∧
        ∃ before, p.lastStep = (before, name.bytes) ∧
          fs.follow true maxLinks (fs.startOf p) before = .ok (.found dir) := by
  unfold holder
  rcases hpath : checkPath p with e | _
  · simp [bind, Except.bind]
  rcases hlast : p.lastStep with ⟨before, last⟩
  obtain ⟨bytes⟩ := name
  rcases hfollow : fs.follow true maxLinks (fs.startOf p) before with e | (found | _)
  · simp [bind, Except.bind, hfollow]
  · simp only [bind, Except.bind, hfollow]
    split
    · next hdir =>
      constructor
      · intro h
        cases h
        exact ⟨trivial, hdir, before, rfl, hfollow⟩
      · intro given
        obtain ⟨-, -, _, hsame, hfound⟩ := given
        cases hsame
        rw [hfollow] at hfound
        cases hfound
        rfl
    · next hdir =>
      constructor
      · intro h
        cases h
      · intro given
        obtain ⟨-, hdir', _, hsame, hfound⟩ := given
        cases hsame
        rw [hfollow] at hfound
        cases hfound
        exact absurd hdir' hdir
  · simp [bind, Except.bind, hfollow]

/-- A path ends in a name that is free in a directory. -/
structure FreeAt (fs : FileSystem) (p : Path) (dir : NodeId) (name : RawText) : Prop where
  holder : fs.holder p = .ok (dir, name)
  isName : isEntryName name = true
  short : ¬ name.bytes.length > maxNameLength
  free : fs.child? dir name = none

namespace FreeAt

theorem directory (h : fs.FreeAt p dir name) : fs.isDirectoryAt dir = true :=
  (holder_eq_ok.1 h.holder).2.1

theorem kept (sound : fs.Sound) (kept : fs.Kept fs') (h : fs'.FreeAt p dir name) :
    fs.FreeAt p dir name := by
  obtain ⟨path, hdir, before, hlast, hfollow⟩ := holder_eq_ok.1 h.holder
  rw [kept.startOf, follow_kept sound kept _ _ _ _ (sound.startOf_lt p)] at hfollow
  have there : dir < fs.nodes.size := follow_lt sound (sound.startOf_lt p) hfollow
  rw [kept.isDirectoryAt there] at hdir
  refine ⟨holder_eq_ok.2 ⟨path, hdir, before, hlast, hfollow⟩, h.isName, h.short, ?_⟩
  rw [← kept.child? there]
  exact h.free

end FreeAt

/-- An entry is made where a name is free. -/
theorem makeNode_eq_ok {n : NodeId → Node} (h : fs.makeNode p n = .ok fs') :
    ∃ dir name, fs.FreeAt p dir name ∧ fs' = (fs.create dir name (n dir)).2 := by
  obtain ⟨⟨dir, name⟩, hholder, h⟩ := bind_eq_ok.1 h
  dsimp only at h
  -- Each guard that is passed gives one of the facts.
  split at h
  · cases h
  next hname =>
  split at h
  · cases h
  next short =>
  split at h
  · cases h
  next free =>
  split at h
  · cases h
  · cases h
    exact ⟨dir, name, ⟨hholder, by simpa using hname, short, by simpa using free⟩, rfl⟩

/-! ## §2. The scratch directory. -/

/-- A disk is `fs` with one directory more, at `p`, that holds nothing but new files. -/
structure HasScratch (fs : FileSystem) (p : Path) (id : NodeId) (fs' : FileSystem) : Prop where
  linked : ∃ dir name, fs.FreeAt p dir name ∧ (fs.link dir name id).Kept fs'
  new : fs.nodes.size ≤ id
  directory : fs'.isDirectoryAt id = true
  files : ∀ e ∈ fs'.entries id,
    fs.nodes.size ≤ e.node ∧ ∃ content, fs'.kind? e.node = some (.file content)

/-- **Making the directory.**  It is empty. -/
theorem emptyScratch_of_makeNode (sound : fs.Sound) (kept : fs.Kept fs') {mode : Nat} {mtime : Int}
    (h : fs'.makeNode p (fun parent => ⟨.directory [] parent, mode, mtime⟩) = .ok fs'') :
    ∃ id, fs.HasScratch p id fs'' ∧ fs''.entries id = [] := by
  obtain ⟨dir, name, free', rfl⟩ := makeNode_eq_ok h
  have free := free'.kept sound kept
  have hdir := isDirectoryAt_lt free.directory
  let n : Node := ⟨.directory [] dir, mode, mtime⟩
  have added : (fs'.addNode n).2.node? fs'.nodes.size = some n := node?_addNode_self n
  have linked : (fs.link dir name fs'.nodes.size).Kept (fs'.create dir name n).2 :=
    (kept.addNode n).link free.directory name _
  -- The new node is not the directory that holds it.
  have apart : fs'.nodes.size ≠ dir := Nat.ne_of_gt (Nat.lt_of_lt_of_le hdir kept.size_le)
  have hnode : (fs'.create dir name n).2.node? fs'.nodes.size = some n := by
    obtain ⟨es, parent, _, _, hholds⟩ := isDirectoryAt_iff.1 free'.directory
    have hholds' := (node?_addNode_of_lt n (node?_lt hholds)).trans hholds
    exact (node?_link_of_ne hholds' apart).trans added
  have empty : (fs'.create dir name n).2.entries fs'.nodes.size = [] :=
    entries_of_kind? (kind?_eq_some_iff.2 ⟨_, hnode, rfl⟩)
  refine ⟨fs'.nodes.size, ⟨⟨dir, name, free, linked⟩, kept.size_le, ?_, ?_⟩, empty⟩
  · exact isDirectoryAt_iff.2 ⟨_, _, _, _, hnode⟩
  · rw [empty]
    intro e he
    cases he

theorem hasScratch_of_makeNode (sound : fs.Sound) (kept : fs.Kept fs') {mode : Nat} {mtime : Int}
    (h : fs'.makeNode p (fun parent => ⟨.directory [] parent, mode, mtime⟩) = .ok fs'') :
    ∃ id, fs.HasScratch p id fs'' := by
  obtain ⟨id, scratch, -⟩ := emptyScratch_of_makeNode sound kept h
  exact ⟨id, scratch⟩

namespace HasScratch

/-- **What was on the disk can still be read.** -/
theorem grows (h : fs.HasScratch p id fs') : fs.Grows fs' := by
  obtain ⟨dir, name, free, kept⟩ := h.linked
  have hsize : fs.nodes.size ≤ (fs.link dir name id).nodes.size :=
    Nat.le_of_eq (size_link free.directory).symm
  exact (grows_link free.directory free.free id).kept kept hsize

/-- The directory is where it was made. -/
theorem found (h : fs.HasScratch p id fs') :
    ∃ dir name, fs.FreeAt p dir name ∧ fs'.isDirectoryAt dir = true ∧
      fs'.child? dir name = some id := by
  obtain ⟨dir, name, free, kept⟩ := h.linked
  refine ⟨dir, name, free, h.grows.directory dir free.directory, ?_⟩
  rw [kept.child? (size_link free.directory ▸ isDirectoryAt_lt free.directory)]
  exact child?_link_self free.directory free.free

theorem startOf (h : fs.HasScratch p id fs') (q : Path) : fs'.startOf q = fs.startOf q :=
  h.grows.startOf q

/-- **A path that goes on in the directory** leads where the rest of it leads from there. -/
theorem follow (sound : fs.Sound) (h : fs.HasScratch p id fs') :
    p.bytes ≠ [] ∧
    ∃ before last empties,
      last ≠ [] ∧ (∀ e ∈ empties, e = []) ∧ Path.segmentsOf p.bytes = before ++ last :: empties ∧
      ∀ followLast rest result, (∀ links, fs'.follow followLast links id rest = result) →
        fs'.follow followLast maxLinks (fs'.startOf p) (before ++ last :: rest) = result := by
  obtain ⟨dir, name, free, hdir, hchild⟩ := h.found
  obtain ⟨path, -, before, hlast, way⟩ := holder_eq_ok.1 free.holder
  have written : name.bytes ≠ [] := fun hnil => (isEntryName_iff.1 free.isName).1 (.inl hnil)
  obtain ⟨empties, hempties, hsegments⟩ := Path.segmentsOf_lastStep hlast written
  refine ⟨bytes_ne_nil_of_checkPath path, before, _, empties, written, hempties, hsegments, ?_⟩
  intro followLast rest result there
  -- The directory above was there before, so the way to it is the old one.
  have way' : fs'.follow true maxLinks (fs'.startOf p) before = .ok (.found dir) := by
    rw [h.startOf]
    exact follow_grows sound h.grows way
  apply follow_append way' hdir (List.cons_ne_nil _ _)
  intro links
  rw [follow_directory hdir free.isName free.short hchild h.directory]
  exact there links

/-- The path of the directory leads to it. -/
theorem resolve (sound : fs.Sound) (h : fs.HasScratch p id fs') (followLast : Bool) :
    fs'.resolve p followLast = .ok (.found id) := by
  obtain ⟨dir, name, free, -⟩ := h.linked
  obtain ⟨-, before, last, empties, -, hempties, hsegments, way⟩ := h.follow sound
  apply resolve_eq_ok.2
  refine ⟨(holder_eq_ok.1 free.holder).1, ?_⟩
  rw [hsegments]
  apply way
  -- Behind its name the path has nothing but slashes.
  intro links
  rw [← List.append_nil empties, follow_slashes h.directory hempties]
  exact follow_nil

/-- **Taking it away** brings back what was there. -/
theorem removeTree (sound : fs.Sound) (h : fs.HasScratch p id fs') :
    ∃ fs'', fs'.removeTree p = .ok fs'' ∧ fs.Kept fs'' := by
  obtain ⟨dir, name, free, kept⟩ := h.linked
  obtain ⟨dir', name', free', hdir', hchild'⟩ := h.found
  obtain ⟨rfl, rfl⟩ : dir' = dir ∧ name' = name := by
    have same := free'.holder.symm.trans free.holder
    cases same
    exact ⟨rfl, rfl⟩
  obtain ⟨path, -, before, hlast, way⟩ := holder_eq_ok.1 free.holder
  have holder : fs'.holder p = .ok (dir', name') := by
    apply holder_eq_ok.2
    rw [h.startOf]
    exact ⟨path, hdir', before, hlast, follow_grows sound h.grows way⟩
  obtain ⟨es, parent, mode, mtime, hnode⟩ := isDirectoryAt_iff.1 h.directory
  -- Only the directory above changes, and it changes back.
  refine ⟨_, ?_, Kept.unlink free.directory free.free kept⟩
  have removed : fs'.remove p = .ok (fs'.unlink dir' name') := by
    unfold remove
    rw [h.resolve sound, holder]
    exact if_pos hchild'
  unfold FileSystem.removeTree
  rw [h.resolve sound]
  simp [bind, Except.bind, hnode, Node.isDirectory, removed]

/-! ## §3. Files in the directory. -/

/-- A file in the directory is a new one. -/
theorem file_of_child? (h : fs.HasScratch p id fs') (hchild : fs'.child? id name = some file) :
    fs.nodes.size ≤ file ∧ ∃ content mode mtime,
      fs'.node? file = some ⟨.file content, mode, mtime⟩ := by
  obtain ⟨e, he, -, rfl⟩ := exists_entry_of_child? hchild
  obtain ⟨hnew, content, hkind⟩ := h.files e he
  obtain ⟨⟨kind, mode, mtime⟩, hnode, rfl⟩ := kind?_eq_some_iff.1 hkind
  exact ⟨hnew, content, mode, mtime, hnode⟩

/-- Where the path of a file in the directory leads. -/
theorem resolve_join (sound : fs.Sound) (h : fs.HasScratch p id fs') (hname : name.IsStep)
    (path : checkPath (p.join name) = .ok ()) :
    fs'.resolve (p.join name) true =
      if name.bytes.length > maxNameLength then .error .nameTooLong
      else
        match fs'.child? id name with
        | some file => .ok (.found file)
        | none => .ok (.absent id name false) := by
  obtain ⟨written, before, last, empties, hlast, hempties, hsegments, way⟩ := h.follow sound
  obtain ⟨fewer, hfewer, hjoin⟩ := Path.segmentsOf_join hlast hempties hsegments hname.2
  have start : fs'.startOf (p.join name) = fs'.startOf p := by
    unfold FileSystem.startOf
    rw [Path.isAbsolute_join written hname.2]
  unfold FileSystem.resolve
  rw [path, hjoin, start]
  apply way
  -- In the directory the name is the only step that is left.
  intro links
  rw [follow_slashes h.directory hfewer]
  split
  · next long => exact follow_tooLong h.directory hname.1 long
  · next short =>
    cases hchild : fs'.child? id name with
    | none => rw [follow_absent h.directory hname.1 short hchild]; rfl
    | some file =>
      obtain ⟨-, content, mode, mtime, hnode⟩ := h.file_of_child? hchild
      have hlink : fs'.linkTarget? file = none := by
        unfold linkTarget?
        rw [kind?_eq_some_iff.2 ⟨_, hnode, rfl⟩]
      rw [follow_entry h.directory hname.1 short hchild hlink]
      exact follow_nil

/-- Rewriting a new file changes nothing else. -/
theorem setContent (h : fs.HasScratch p id fs') (hchild : fs'.child? id name = some file)
    (new : Content) :
    fs.HasScratch p id (fs'.setContent file new) ∧
      (fs'.setContent file new).child? id name = some file ∧
      (fs'.setContent file new).kind? file = some (.file new) := by
  obtain ⟨dir, outer, free, kept⟩ := h.linked
  obtain ⟨hnew, old, mode, mtime, hnode⟩ := h.file_of_child? hchild
  have apart : id ≠ file := by
    intro given
    subst given
    obtain ⟨_, _, _, _, hdir⟩ := isDirectoryAt_iff.1 h.directory
    rw [hnode] at hdir
    cases hdir
  -- One new node changes; the directory and all other nodes are as they were.
  rw [setContent_eq hnode]
  have hself := node?_setNode_self ⟨.file new, mode, mtime⟩ (node?_lt hnode)
  have same : ∀ i ≠ file, (fs'.setNode file ⟨.file new, mode, mtime⟩).kind? i = fs'.kind? i := by
    intro i hi
    unfold kind?
    rw [node?_setNode_of_ne _ hi]
  have listed : (fs'.setNode file ⟨.file new, mode, mtime⟩).entries id = fs'.entries id := by
    unfold entries
    rw [same id apart]
  refine ⟨⟨⟨dir, outer, free, kept.setNode ?_ _⟩, h.new, ?_, ?_⟩, ?_,
    kind?_eq_some_iff.2 ⟨_, hself, rfl⟩⟩
  · rw [size_link free.directory]
    exact hnew
  · unfold isDirectoryAt
    rw [node?_setNode_of_ne _ apart]
    exact h.directory
  · rw [listed]
    intro e he
    obtain ⟨hnew', content, hkind⟩ := h.files e he
    refine ⟨hnew', ?_⟩
    rcases Nat.decEq e.node file with hne | rfl
    · exact ⟨content, (same _ hne).trans hkind⟩
    · exact ⟨new, kind?_eq_some_iff.2 ⟨_, hself, rfl⟩⟩
  · unfold child?
    rw [listed]
    exact hchild

/-- A new file under a free name. -/
theorem create (h : fs.HasScratch p id fs') (free : fs'.child? id name = none)
    {content : Content} {mode : Nat} {mtime : Int} :
    fs.HasScratch p id (fs'.create id name ⟨.file content, mode, mtime⟩).2 ∧
      (fs'.create id name ⟨.file content, mode, mtime⟩).2.child? id name = some fs'.nodes.size := by
  obtain ⟨dir, outer, there, kept⟩ := h.linked
  obtain ⟨es, parent, _, _, hnode⟩ := isDirectoryAt_iff.1 h.directory
  have hid := node?_lt hnode
  let n : Node := ⟨.file content, mode, mtime⟩
  have added : (fs'.addNode n).2.node? id = _ := (node?_addNode_of_lt n hid).trans hnode
  have hself : ((fs'.addNode n).2.link id name fs'.nodes.size).node? id = _ :=
    node?_link_self added
  have still : (fs'.addNode n).2.child? id name = none := by
    rwa [((Kept.refl fs').addNode n).child? hid]
  refine ⟨⟨⟨dir, outer, there, ?_⟩, h.new, isDirectoryAt_iff.2 ⟨_, _, _, _, hself⟩, ?_⟩,
    child?_link_self (isDirectoryAt_iff.2 ⟨_, _, _, _, added⟩) still⟩
  · -- The nodes that change are both new ones.
    unfold FileSystem.create
    dsimp only
    unfold link
    rw [setEntries_eq added]
    exact (kept.addNode n).setNode (by rw [size_link there.directory]; exact h.new) _
  · intro e he
    have he' : e ∈ ((fs'.addNode n).2.link id name fs'.nodes.size).entries id := he
    rw [entries_of_kind? (kind?_eq_some_iff.2 ⟨_, hself, rfl⟩), mem_insertEntry_iff] at he'
    -- An entry is that of the new file, or one that was there.
    rcases he' with rfl | he
    · refine ⟨Nat.le_trans h.new (Nat.le_of_lt hid), content, ?_⟩
      apply kind?_eq_some_iff.2
      exact ⟨n, (node?_link_of_ne added (Nat.ne_of_gt hid)).trans (node?_addNode_self n), rfl⟩
    · rw [← entries_of_kind? (kind?_eq_some_iff.2 ⟨_, hnode, rfl⟩)] at he
      obtain ⟨hnew, old, hkind⟩ := h.files e he
      refine ⟨hnew, old, ?_⟩
      obtain ⟨m, hm, hmkind⟩ := kind?_eq_some_iff.1 hkind
      have apart : e.node ≠ id := by
        intro heq
        rw [heq, hnode] at hm
        cases hm
        cases hmkind
      apply kind?_eq_some_iff.2
      exact ⟨m, (node?_link_of_ne added apart).trans
        ((node?_addNode_of_lt n (node?_lt hm)).trans hm), hmkind⟩

/-- The path of a file that could be opened is one. -/
theorem checkPath_of_openWrite {q : Path} (h : fs'.openWrite q = .ok (file, fs'')) :
    checkPath q = .ok () := by
  unfold FileSystem.openWrite at h
  split at h
  · rcases hholder : fs'.holder q with e | _ <;> rw [hholder] at h <;> cases h
  · rcases hresolve : fs'.resolve q true with e | r <;> rw [hresolve] at h
    · cases h
    · exact (resolve_eq_ok.1 hresolve).1

/-- **Opening a file in the directory for writing.** -/
theorem openWrite (sound : fs.Sound) (h : fs.HasScratch p id fs') (hname : name.IsStep)
    (hopen : fs'.openWrite (p.join name) = .ok (file, fs'')) :
    fs.HasScratch p id fs'' ∧ fs''.child? id name = some file ∧
      ¬ name.bytes.length > maxNameLength := by
  have path := checkPath_of_openWrite hopen
  have written : name.bytes ≠ [] := fun hnil => (isEntryName_iff.1 hname.1).1 (.inl hnil)
  have plain := Path.endsWithSlash_join (h.follow sound).1 hname.2 written
  unfold FileSystem.openWrite at hopen
  rw [if_neg (by simp [plain]), h.resolve_join sound hname path] at hopen
  split at hopen
  · cases hopen
  · next short =>
    split at hopen
    · next old hchild =>
      obtain ⟨hnew, content, mode, mtime, hnode⟩ := h.file_of_child? hchild
      have hkind : fs'.kind? old = some (.file content) := kind?_eq_some_iff.2 ⟨_, hnode, rfl⟩
      simp only [bind, Except.bind, hkind] at hopen
      cases hopen
      exact ⟨(h.setContent hchild _).1, (h.setContent hchild _).2.1, short⟩
    · next free =>
      simp only [bind, Except.bind] at hopen
      cases hopen
      exact ⟨(h.create free).1, (h.create free).2, short⟩

/-- **Writing a file in the directory.**  There is room for it. -/
theorem writeAll (h : fs.HasScratch p id fs') (hchild : fs'.child? id name = some file)
    (data : ByteArray) :
    ∃ fs'', fs'.writeAll file data = .ok fs'' ∧ fs.HasScratch p id fs'' ∧
      fs''.child? id name = some file ∧ fs''.kind? file = some (.file (.ofBytes data)) := by
  obtain ⟨-, content, mode, mtime, hnode⟩ := h.file_of_child? hchild
  have hkind : fs'.kind? file = some (.file content) := kind?_eq_some_iff.2 ⟨_, hnode, rfl⟩
  refine ⟨_, ?_, h.setContent hchild (.ofBytes data)⟩
  unfold FileSystem.writeAll
  rw [hkind]

/-- **Reading a file in the directory.** -/
theorem bytesAt (sound : fs.Sound) (h : fs.HasScratch p id fs') (hname : name.IsStep)
    (path : checkPath (p.join name) = .ok ()) (short : ¬ name.bytes.length > maxNameLength)
    (hchild : fs'.child? id name = some file) {content : Content}
    (hkind : fs'.kind? file = some (.file content)) :
    fs'.bytesAt (p.join name) = .ok content.bytes := by
  obtain ⟨⟨_, mode, mtime⟩, hnode, rfl⟩ := kind?_eq_some_iff.1 hkind
  refine bytesAt_of_file (locate_eq_ok.2 ?_) hnode
  rw [h.resolve_join sound hname path, if_neg short, hchild]

end HasScratch
end ArtifactCourier.FileSystem
