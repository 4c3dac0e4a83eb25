/-
  ArtifactCourier.Proofs.FileSystem.Reordered
  ──────────────────────────────────────
  **Disks that list their directories in different orders.**

  The order of a directory's entries shows in a listing and nowhere else: a path leads to
  the same node, since the names in a directory are distinct.

    • `FileSystem.Reordered` — the same disk, but for the order of listings,
    • `follow_congr` — where a path leads depends on four questions about nodes,
    • `stat_reordered`, `bytesAt_reordered` — what is found at a path is the same,
    • `listDirectory_reordered` — a whole listing is a permutation,
    • `reordered_setEntries` — every permutation of a directory's entries is such a disk.
-/
import ArtifactCourier.Proofs.FileSystem.Link

namespace ArtifactCourier

/-- Two nodes are the same, but for the order in which a directory lists its entries.  Their names
are distinct. -/
inductive Node.Reordered : Node → Node → Prop
  | same (n : Node) : Reordered n n
  | directory {es es' : List DirEntry} {parent : NodeId} {mode : Nat} {mtime : Int} :
      es.Perm es' → (es.map (·.name)).Nodup →
      Reordered ⟨.directory es parent, mode, mtime⟩ ⟨.directory es' parent, mode, mtime⟩

theorem Node.Reordered.isFile {n n' : Node} (h : n.Reordered n') : n'.isFile = n.isFile := by
  cases h <;> rfl

/-- A regular file has no order. -/
theorem Node.Reordered.eq_of_isFile {n n' : Node} (h : n.Reordered n') (regular : n.isFile = true) :
    n' = n := by
  cases h with
  | same => rfl
  | directory => cases regular

namespace FileSystem

variable {fs fs' : FileSystem} {id : NodeId} {p : Path}

/-- **The same disk, but for the order of listings.** -/
structure Reordered (fs fs' : FileSystem) : Prop where
  workingDirectory : fs'.workingDirectory = fs.workingDirectory
  owners : fs'.owners = fs.owners
  breaks : fs'.breaks = fs.breaks
  node : ∀ id, Option.Rel Node.Reordered (fs.node? id) (fs'.node? id)

/-! ## §1. Entries. -/

/-- An entry is found by its name, wherever it is listed.  The induction is on the permutation. -/
theorem find?_name_perm {es es' : List DirEntry} (h : es.Perm es')
    (distinct : (es.map (·.name)).Nodup) (name : RawText) :
    es.find? (·.name == name) = es'.find? (·.name == name) := by
  induction h with
  | nil => rfl
  | cons e _ ih => rw [List.find?_cons, List.find?_cons, ih (List.nodup_cons.1 distinct).2]
  | swap e f rest =>
    have hne : f.name ≠ e.name := by
      intro given
      apply (List.nodup_cons.1 distinct).1
      exact List.mem_map.2 ⟨e, List.mem_cons_self, given.symm⟩
    rw [List.find?_cons, List.find?_cons, List.find?_cons, List.find?_cons]
    rcases he : e.name == name with _ | _ <;> rcases hf : f.name == name with _ | _
    · rfl
    · rfl
    · rfl
    · exact absurd ((beq_iff_eq.1 hf).trans (beq_iff_eq.1 he).symm) hne
  | trans h _ ih ih' => exact (ih distinct).trans (ih' ((h.map _).nodup_iff.1 distinct))

namespace Reordered

/-- A node is the same on both disks, or a directory. -/
theorem node_cases (h : fs.Reordered fs') (id : NodeId) :
    fs'.node? id = fs.node? id ∨
      ∃ es es' parent mode mtime, fs.node? id = some ⟨.directory es parent, mode, mtime⟩ ∧
        fs'.node? id = some ⟨.directory es' parent, mode, mtime⟩ ∧ es.Perm es' ∧
          (es.map (·.name)).Nodup := by
  have related := h.node id
  generalize fs.node? id = found, fs'.node? id = found' at related ⊢
  cases related with
  | none => exact .inl rfl
  | some related =>
    cases related with
    | same n => exact .inl rfl
    | directory perm distinct => exact .inr ⟨_, _, _, _, _, rfl, rfl, perm, distinct⟩

theorem isDirectoryAt (h : fs.Reordered fs') (id : NodeId) :
    fs'.isDirectoryAt id = fs.isDirectoryAt id := by
  unfold FileSystem.isDirectoryAt
  obtain same | ⟨_, _, _, _, _, hnode, hnode', -⟩ := h.node_cases id
  · rw [same]
  · rw [hnode, hnode']
    rfl

theorem parentOf (h : fs.Reordered fs') (id : NodeId) : fs'.parentOf id = fs.parentOf id := by
  unfold FileSystem.parentOf kind?
  obtain same | ⟨_, _, _, _, _, hnode, hnode', -⟩ := h.node_cases id
  · rw [same]
  · rw [hnode, hnode']
    rfl

theorem linkTarget? (h : fs.Reordered fs') (id : NodeId) :
    fs'.linkTarget? id = fs.linkTarget? id := by
  unfold FileSystem.linkTarget? kind?
  obtain same | ⟨_, _, _, _, _, hnode, hnode', -⟩ := h.node_cases id
  · rw [same]
  · rw [hnode, hnode']
    rfl

theorem child? (h : fs.Reordered fs') (id : NodeId) (name : RawText) :
    fs'.child? id name = fs.child? id name := by
  unfold FileSystem.child? entries kind?
  obtain same | ⟨_, _, _, _, _, hnode, hnode', perm, distinct⟩ := h.node_cases id
  · rw [same]
  · rw [hnode, hnode']
    exact congrArg (Option.map (·.node)) (find?_name_perm perm distinct name).symm

theorem readAll (h : fs.Reordered fs') (id : NodeId) : fs'.readAll id = fs.readAll id := by
  unfold FileSystem.readAll kind?
  obtain same | ⟨_, _, _, _, _, hnode, hnode', -⟩ := h.node_cases id
  · rw [same]
  · rw [hnode, hnode']
    rfl

end Reordered

/-! ## §2. Paths. -/

/-- **Where a path leads depends on four questions about nodes.** -/
theorem follow_congr (directory : ∀ id, fs'.isDirectoryAt id = fs.isDirectoryAt id)
    (child : ∀ id name, fs'.child? id name = fs.child? id name)
    (parent : ∀ id, fs'.parentOf id = fs.parentOf id)
    (link : ∀ id, fs'.linkTarget? id = fs.linkTarget? id) (followLast : Bool) (links : Nat)
    (dir : NodeId) (segments : List (List UInt8)) :
    fs'.follow followLast links dir segments = fs.follow followLast links dir segments := by
  fun_induction FileSystem.follow fs followLast links dir segments with
  | case1 => exact follow_nil
  | case10 _ _ _ _ _ _ _ _ _ _ _ _ _ ih =>
    -- A link is followed from the root or from the directory that holds it.
    simp only [dite_eq_ite] at ih
    rw [follow]
    simp only [directory, child, link]
    simp [*]
  | _ =>
    rw [follow]
    simp only [directory, child, parent, link]
    simp [*]

theorem resolve_reordered (h : fs.Reordered fs') (p : Path) (followLast : Bool) :
    fs'.resolve p followLast = fs.resolve p followLast := by
  unfold resolve startOf
  rw [h.workingDirectory,
    follow_congr h.isDirectoryAt h.child? h.parentOf h.linkTarget?]

theorem locate_reordered (h : fs.Reordered fs') (p : Path) : fs'.locate p = fs.locate p := by
  unfold locate
  rw [resolve_reordered h]

/-- What a path leads to belongs to the same one. -/
theorem ownerAt_reordered (h : fs.Reordered fs') (p : Path) : fs'.ownerAt p = fs.ownerAt p := by
  unfold ownerAt
  rw [locate_reordered h, h.owners]

/-- What a path leads to is the same, but for the order of its entries. -/
theorem stat_reordered (h : fs.Reordered fs') (p : Path) :
    (∃ e, fs.stat p = .error e ∧ fs'.stat p = .error e) ∨
      ∃ n n', fs.stat p = .ok n ∧ fs'.stat p = .ok n' ∧ n.Reordered n' := by
  unfold stat
  rw [locate_reordered h]
  cases fs.locate p with
  | error e => exact .inl ⟨e, rfl, rfl⟩
  | ok id =>
    have related := h.node id
    simp only [bind, Except.bind]
    generalize fs.node? id = found, fs'.node? id = found' at related ⊢
    cases related with
    | none => exact .inl ⟨_, rfl, rfl⟩
    | some related => exact .inr ⟨_, _, rfl, rfl, related⟩

/-- What is read from a file is the same. -/
theorem bytesAt_reordered (h : fs.Reordered fs') (p : Path) : fs'.bytesAt p = fs.bytesAt p := by
  have opened : fs'.openRead p = fs.openRead p := by
    unfold openRead
    rw [locate_reordered h]
    cases fs.locate p with
    | error e => rfl
    | ok id =>
      simp only [bind, Except.bind]
      unfold kind?
      obtain same | ⟨_, _, _, _, _, hnode, hnode', -⟩ := h.node_cases id
      · rw [same]
      · rw [hnode, hnode']
        rfl
  unfold bytesAt
  rw [opened]
  cases fs.openRead p with
  | error e => rfl
  | ok id => exact h.readAll id

/-- **A listing is the other one or a permutation of it**, or both are refused or break off. -/
theorem listDirectory_reordered (h : fs.Reordered fs') (p : Path) :
    (∃ e, fs.listDirectory p = .error e ∧ fs'.listDirectory p = .error e) ∨
      ∃ names names', fs.listDirectory p = .ok names ∧ fs'.listDirectory p = .ok names' ∧
        (names' = names ∨ names.Perm names' ∧ names.Nodup) := by
  unfold listDirectory readDirectory listing
  rw [locate_reordered h, h.breaks]
  cases fs.locate p with
  | error e => exact .inl ⟨e, rfl, rfl⟩
  | ok id =>
    simp only [bind, Except.bind, h.isDirectoryAt id]
    cases fs.isDirectoryAt id with
    | false => exact .inl ⟨_, rfl, rfl⟩
    | true =>
      cases fs.breaks id with
      | some broken => exact .inl ⟨broken.2, rfl, rfl⟩
      | none =>
        refine .inr ⟨_, _, rfl, rfl, ?_⟩
        unfold names entries kind?
        obtain same | ⟨_, _, _, _, _, hnode, hnode', perm, distinct⟩ := h.node_cases id
        · rw [same]
          exact .inl rfl
        · rw [hnode, hnode']
          exact .inr ⟨perm.map _, distinct⟩

/-- **A directory may be listed in another order.** -/
theorem reordered_setEntries (dir : NodeId) {change : List DirEntry → List DirEntry}
    (perm : (fs.entries dir).Perm (change (fs.entries dir)))
    (distinct : ((fs.entries dir).map (·.name)).Nodup) :
    fs.Reordered (fs.setEntries dir change) := by
  have related : ∀ n, Option.Rel Node.Reordered n n := fun n =>
    match n with
    | none => .none
    | some n => .some (.same n)
  unfold setEntries
  split
  · next es parent mode mtime hnode =>
    rw [entries_of_kind? (kind?_eq_some_iff.2 ⟨_, hnode, rfl⟩)] at perm distinct
    refine ⟨rfl, rfl, rfl, fun id => ?_⟩
    rcases Nat.decEq id dir with hne | rfl
    · rw [node?_setNode_of_ne _ hne]
      exact related _
    · rw [node?_setNode_self _ (node?_lt hnode), hnode]
      exact .some (.directory perm distinct)
  · exact ⟨rfl, rfl, rfl, fun id => related _⟩

end FileSystem
end ArtifactCourier
