/-
  ArtifactCourier.Proofs.FileSystem.Link
  ──────────────────────────────────────
  **What the changes of a disk change.**

  Each change of the node table touches one node.  An entry that is added to a directory
  under a free name is found there, and nothing that was found before is lost.

    • `find?_insertEntry_self`, `find?_insertEntry_of_ne` — looking up what was inserted,
    • `Kept.addNode`, `Kept.setNode`, `Kept.link` — changes that keep what an older disk held,
    • `grows_link` — an entry under a free name,
    • `Kept.unlink` — and its removal.
-/
import ArtifactCourier.Proofs.FileSystem.Sound

namespace ArtifactCourier.FileSystem

variable {fs fs' : FileSystem} {id dir : NodeId} {name : RawText}

/-! ## §1. Entries. -/

theorem mem_insertEntry_iff {e f : DirEntry} {entries : List DirEntry} :
    f ∈ insertEntry e entries ↔ f = e ∨ f ∈ entries := by
  induction entries with
  | nil => simp [insertEntry]
  | cons g rest ih =>
    rw [insertEntry]
    split
    · simp
    · rw [List.mem_cons, ih, List.mem_cons]
      exact or_left_comm

/-- What was inserted under a free name is found. -/
theorem find?_insertEntry_self {e : DirEntry} {entries : List DirEntry}
    (fresh : ∀ f ∈ entries, f.name ≠ e.name) :
    (insertEntry e entries).find? (·.name == e.name) = some e := by
  induction entries with
  | nil => simp [insertEntry]
  | cons g rest ih =>
    rw [insertEntry]
    split
    · simp
    · rw [List.find?_cons_of_neg (by simpa using fresh g List.mem_cons_self)]
      exact ih fun f hf => fresh f (List.mem_cons_of_mem _ hf)

/-- Other names lead where they led. -/
theorem find?_insertEntry_of_ne {e : DirEntry} (h : name ≠ e.name) (entries : List DirEntry) :
    (insertEntry e entries).find? (·.name == name) = entries.find? (·.name == name) := by
  have other : ¬ (e.name == name) = true := by simpa using Ne.symm h
  induction entries with
  | nil => simp [insertEntry, h.symm]
  | cons g rest ih =>
    rw [insertEntry]
    split
    · exact List.find?_cons_of_neg other
    · rw [List.find?_cons, List.find?_cons, ih]

theorem entries_of_kind? {es : List DirEntry} {parent : NodeId}
    (h : fs.kind? id = some (.directory es parent)) : fs.entries id = es := by
  unfold entries
  rw [h]

/-- A name is free if no entry has it. -/
theorem fresh_of_child?_eq_none (h : fs.child? dir name = none) :
    ∀ e ∈ fs.entries dir, e.name ≠ name := by
  unfold child? at h
  intro e he
  simpa using List.find?_eq_none.1 (Option.map_eq_none_iff.1 h) e he

theorem exists_entry_of_child? {child : NodeId} (h : fs.child? dir name = some child) :
    ∃ e ∈ fs.entries dir, e.name = name ∧ e.node = child := by
  obtain ⟨e, he, rfl⟩ := Option.map_eq_some_iff.1 h
  exact ⟨e, List.mem_of_find?_eq_some he, by simpa using List.find?_some he, rfl⟩

/-- A directory is one that says so. -/
theorem isDirectoryAt_iff :
    fs.isDirectoryAt id = true ↔
      ∃ es parent mode mtime, fs.node? id = some ⟨.directory es parent, mode, mtime⟩ := by
  unfold isDirectoryAt
  rcases fs.node? id with _ | ⟨kind, mode, mtime⟩
  · simp
  · cases kind <;> simp [Node.isDirectory]

/-! ## §2. The node table. -/

@[simp] theorem size_setNode (n : Node) : (fs.setNode id n).nodes.size = fs.nodes.size := by
  simp [setNode]

theorem node?_setNode_self (n : Node) (h : id < fs.nodes.size) :
    (fs.setNode id n).node? id = some n := by
  unfold node? setNode
  rw [Array.getElem?_setIfInBounds, if_pos rfl, if_pos h]

theorem node?_setNode_of_ne (n : Node) {other : NodeId} (h : other ≠ id) :
    (fs.setNode id n).node? other = fs.node? other := by
  unfold node? setNode
  rw [Array.getElem?_setIfInBounds, if_neg (Ne.symm h)]

theorem node?_addNode_self (n : Node) : (fs.addNode n).2.node? fs.nodes.size = some n := by
  simp [node?, addNode]

theorem node?_addNode_of_lt (n : Node) {other : NodeId} (h : other < fs.nodes.size) :
    (fs.addNode n).2.node? other = fs.node? other := by
  unfold node? addNode
  rw [Array.getElem?_push, if_neg (Nat.ne_of_lt h)]

/-- Giving a directory other entries is a change of that node. -/
theorem setEntries_eq {es : List DirEntry} {parent : NodeId} {mode : Nat} {mtime : Int}
    (h : fs.node? dir = some ⟨.directory es parent, mode, mtime⟩)
    (change : List DirEntry → List DirEntry) :
    fs.setEntries dir change = fs.setNode dir ⟨.directory (change es) parent, mode, mtime⟩ := by
  unfold setEntries
  rw [h]

theorem setContent_eq {content : Content} {mode : Nat} {mtime : Int}
    (h : fs.node? id = some ⟨.file content, mode, mtime⟩) (new : Content) :
    fs.setContent id new = fs.setNode id ⟨.file new, mode, mtime⟩ := by
  unfold setContent
  rw [h]

/-- Rewriting a file changes what files hold, and nothing else. -/
theorem node?_setContent (content : Content) (other : NodeId) :
    (fs.setContent id content).node? other = fs.node? other ∨
      ∃ old mode mtime, fs.node? other = some ⟨.file old, mode, mtime⟩ ∧
        (fs.setContent id content).node? other = some ⟨.file content, mode, mtime⟩ := by
  unfold setContent
  split
  · next old mode mtime hnode =>
    rcases Nat.decEq other id with hne | rfl
    · exact .inl (node?_setNode_of_ne _ hne)
    · exact .inr ⟨old, mode, mtime, hnode, node?_setNode_self _ (node?_lt hnode)⟩
  · exact .inl rfl

/-! ## §3. Keeping what an older disk held. -/

namespace Kept

/-- A new node is beside what was there. -/
theorem addNode (kept : fs.Kept fs') (n : Node) : fs.Kept (fs'.addNode n).2 where
  toAlike := ⟨kept.workingDirectory, kept.workingPath, kept.tempPath, kept.owners, kept.breaks⟩
  node i hi := (node?_addNode_of_lt n (Nat.lt_of_lt_of_le hi kept.size_le)).trans (kept.node i hi)

/-- A node that was not there yet may change. -/
theorem setNode (kept : fs.Kept fs') (h : fs.nodes.size ≤ id) (n : Node) :
    fs.Kept (fs'.setNode id n) where
  toAlike := ⟨kept.workingDirectory, kept.workingPath, kept.tempPath, kept.owners, kept.breaks⟩
  node i hi :=
    (node?_setNode_of_ne n (Nat.ne_of_lt (Nat.lt_of_lt_of_le hi h))).trans (kept.node i hi)

/-- The same change of the same node keeps the rest. -/
theorem setNode_both (kept : fs.Kept fs') (h : id < fs.nodes.size) (n : Node) :
    (fs.setNode id n).Kept (fs'.setNode id n) where
  toAlike := ⟨kept.workingDirectory, kept.workingPath, kept.tempPath, kept.owners, kept.breaks⟩
  node i hi := by
    rw [size_setNode] at hi
    rcases Nat.decEq i id with hne | rfl
    · rw [node?_setNode_of_ne n hne, node?_setNode_of_ne n hne]
      exact kept.node i hi
    · rw [node?_setNode_self n hi, node?_setNode_self n (Nat.lt_of_lt_of_le hi kept.size_le)]

/-- The same entry in the same directory. -/
theorem link (kept : fs.Kept fs') (h : fs.isDirectoryAt dir = true) (name : RawText)
    (id : NodeId) : (fs.link dir name id).Kept (fs'.link dir name id) := by
  obtain ⟨es, parent, mode, mtime, hnode⟩ := isDirectoryAt_iff.1 h
  have hdir := node?_lt hnode
  unfold FileSystem.link
  rw [setEntries_eq hnode, setEntries_eq ((kept.node dir hdir).trans hnode)]
  exact kept.setNode_both hdir _

end Kept

/-! ## §4. An entry more. -/

theorem isDirectoryAt_lt (h : fs.isDirectoryAt id = true) : id < fs.nodes.size := by
  obtain ⟨es, parent, mode, mtime, hnode⟩ := isDirectoryAt_iff.1 h
  exact node?_lt hnode

/-- Only a directory has entries. -/
theorem isDirectoryAt_of_child? {child : NodeId} (h : fs.child? dir name = some child) :
    fs.isDirectoryAt dir = true := by
  obtain ⟨e, he, -⟩ := exists_entry_of_child? h
  unfold entries at he
  split at he
  · next es parent hkind =>
    obtain ⟨⟨kind, mode, mtime⟩, hnode, rfl⟩ := kind?_eq_some_iff.1 hkind
    exact isDirectoryAt_iff.2 ⟨es, parent, mode, mtime, hnode⟩
  · cases he

section link

variable {es : List DirEntry} {parent : NodeId} {mode : Nat} {mtime : Int}

theorem node?_link_self (h : fs.node? dir = some ⟨.directory es parent, mode, mtime⟩) :
    (fs.link dir name id).node? dir
      = some ⟨.directory (insertEntry ⟨name, id⟩ es) parent, mode, mtime⟩ := by
  unfold link
  rw [setEntries_eq h]
  exact node?_setNode_self _ (node?_lt h)

theorem node?_link_of_ne (h : fs.node? dir = some ⟨.directory es parent, mode, mtime⟩)
    {other : NodeId} (hne : other ≠ dir) :
    (fs.link dir name id).node? other = fs.node? other := by
  unfold link
  rw [setEntries_eq h]
  exact node?_setNode_of_ne _ hne

theorem size_link (h : fs.isDirectoryAt dir = true) :
    (fs.link dir name id).nodes.size = fs.nodes.size := by
  obtain ⟨es, parent, mode, mtime, hnode⟩ := isDirectoryAt_iff.1 h
  unfold link
  rw [setEntries_eq hnode]
  exact size_setNode _

end link

/-- The new entry is found. -/
theorem child?_link_self (h : fs.isDirectoryAt dir = true) (free : fs.child? dir name = none) :
    (fs.link dir name id).child? dir name = some id := by
  obtain ⟨es, parent, mode, mtime, hnode⟩ := isDirectoryAt_iff.1 h
  have fresh := fresh_of_child?_eq_none free
  rw [entries_of_kind? (kind?_eq_some_iff.2 ⟨_, hnode, rfl⟩)] at fresh
  unfold child?
  rw [entries_of_kind? (kind?_eq_some_iff.2 ⟨_, node?_link_self hnode, rfl⟩),
    find?_insertEntry_self (e := ⟨name, id⟩) fresh]
  rfl

/-- All other names lead where they led. -/
theorem child?_link_of_ne (h : fs.isDirectoryAt dir = true) {other : NodeId} {search : RawText}
    (apart : other = dir → search ≠ name) :
    (fs.link dir name id).child? other search = fs.child? other search := by
  obtain ⟨es, parent, mode, mtime, hnode⟩ := isDirectoryAt_iff.1 h
  unfold child?
  rcases Nat.decEq other dir with hne | rfl
  · unfold entries kind?
    rw [node?_link_of_ne hnode hne]
  · rw [entries_of_kind? (kind?_eq_some_iff.2 ⟨_, node?_link_self hnode, rfl⟩),
      entries_of_kind? (kind?_eq_some_iff.2 ⟨_, hnode, rfl⟩),
      find?_insertEntry_of_ne (e := ⟨name, id⟩) (apart rfl)]

/-- A new entry changes nothing but the directory that it is in. -/
theorem alike_link (h : fs.isDirectoryAt dir = true) : fs.Alike (fs.link dir name id) := by
  obtain ⟨es, parent, mode, mtime, hnode⟩ := isDirectoryAt_iff.1 h
  unfold link
  rw [setEntries_eq hnode]
  exact ⟨rfl, rfl, rfl, rfl, rfl⟩

/-- **An entry under a free name loses nothing.** -/
theorem grows_link (h : fs.isDirectoryAt dir = true) (free : fs.child? dir name = none)
    (id : NodeId) : fs.Grows (fs.link dir name id) := by
  obtain ⟨es, parent, mode, mtime, hnode⟩ := isDirectoryAt_iff.1 h
  have hself : (fs.link dir name id).node? dir = _ := node?_link_self hnode
  refine ⟨alike_link h, ?_, ?_, ?_, ?_⟩
  · -- The node that changes is a directory.
    intro other _ hother
    apply node?_link_of_ne hnode
    intro given
    subst given
    rw [h] at hother
    cases hother
  · intro other hother
    rcases Nat.decEq other dir with hne | rfl
    · unfold isDirectoryAt at hother ⊢
      rw [node?_link_of_ne hnode hne]
      exact hother
    · exact isDirectoryAt_iff.2 ⟨_, _, _, _, hself⟩
  · intro other _
    unfold parentOf kind?
    rcases Nat.decEq other dir with hne | rfl
    · rw [node?_link_of_ne hnode hne]
    · rw [hself, hnode]
      rfl
  · intro other search child hchild
    -- What was found before has another name than the free one.
    have apart : other = dir → search ≠ name := by
      rintro rfl rfl
      rw [free] at hchild
      cases hchild
    rw [child?_link_of_ne h apart]
    exact hchild

/-- What keeps a disk that holds more holds more. -/
theorem Grows.kept {mid : FileSystem} (grows : fs.Grows mid) (kept : mid.Kept fs')
    (hsize : fs.nodes.size ≤ mid.nodes.size) : fs.Grows fs' where
  toAlike := grows.toAlike.trans kept.toAlike
  node i hi hdir :=
    (kept.node i (Nat.lt_of_lt_of_le hi hsize)).trans (grows.node i hi hdir)
  directory i hi := by
    have there := grows.directory i hi
    rwa [kept.isDirectoryAt (isDirectoryAt_lt there)]
  parentOf i hi := by
    rw [kept.parentOf (isDirectoryAt_lt (grows.directory i hi)), grows.parentOf i hi]
  child? i search child hchild := by
    have there := grows.child? i search child hchild
    rwa [kept.child? (isDirectoryAt_lt (isDirectoryAt_of_child? there))]

/-- **Taking the entry away leaves what was there.** -/
theorem Kept.unlink (h : fs.isDirectoryAt dir = true) (free : fs.child? dir name = none)
    (kept : (fs.link dir name id).Kept fs') : fs.Kept (fs'.unlink dir name) := by
  obtain ⟨es, parent, mode, mtime, hnode⟩ := isDirectoryAt_iff.1 h
  have hsize : (fs.link dir name id).nodes.size = fs.nodes.size := size_link h
  have fresh := fresh_of_child?_eq_none free
  rw [entries_of_kind? (kind?_eq_some_iff.2 ⟨_, hnode, rfl⟩)] at fresh
  have hself : fs'.node? dir = _ :=
    (kept.node dir (hsize ▸ node?_lt hnode)).trans (node?_link_self hnode)
  -- What is filtered out is what was inserted.
  have back : (insertEntry ⟨name, id⟩ es).filter (·.name != name) = es :=
    filter_insertEntry (e := ⟨name, id⟩) fresh
  have outer : fs.Alike fs' := (alike_link h).trans kept.toAlike
  unfold FileSystem.unlink
  rw [setEntries_eq hself, back]
  refine ⟨⟨outer.workingDirectory, outer.workingPath, outer.tempPath, outer.owners,
    outer.breaks⟩, ?_⟩
  intro i hi
  -- The directory has its old entries again, and no other node was changed by the entry.
  rcases Nat.decEq i dir with hne | rfl
  · rw [node?_setNode_of_ne _ hne, kept.node i (hsize ▸ hi), node?_link_of_ne hnode hne]
  · rw [node?_setNode_self _ (node?_lt hself), hnode]

end ArtifactCourier.FileSystem
