/-
  ArtifactCourier.Proofs.FileSystem.Changes
  ──────────────────────────────────────
  **Every disk that can come about is sound.**

  A fresh disk is sound, and what is done to a sound disk leaves it sound: the names of new
  entries are steps of a path, and new nodes are numbered when they are made.

    • `Sound.addNode`, `Sound.setNode`, `Sound.setEntries` — changes of the node table,
    • `Sound.openWrite`, `Sound.makeNode`, `Sound.remove` — operations,
    • `Sound.perform`, `Sound.applyEdits` — changes that others make,
    • `sound_fresh` — the fresh disk.
-/
import ArtifactCourier.FileSystem.Fresh
import ArtifactCourier.Proofs.FileSystem.ScratchDirectory

namespace ArtifactCourier

theorem Node.SoundIn.mono {size size' : Nat} {n : Node} (h : n.SoundIn size)
    (hsize : size ≤ size') : n.SoundIn size' := by
  obtain ⟨kind, mode, mtime⟩ := n
  cases kind with
  | directory es parent =>
    refine ⟨Nat.lt_of_lt_of_le h.1 hsize, fun e he => ?_⟩
    exact ⟨Nat.lt_of_lt_of_le (h.2 e he).1 hsize, (h.2 e he).2⟩
  | _ => trivial

namespace FileSystem

variable {fs fs' : FileSystem} {id dir : NodeId} {name : RawText} {p : Path} {n : Node}

namespace Sound

/-! ## §1. The node table. -/

theorem of_node? (sound : fs.Sound) (h : fs.node? id = some n) : n.SoundIn fs.nodes.size :=
  sound.nodes n (Array.mem_toList_iff.2 (Array.mem_of_getElem? h))

theorem addNode (sound : fs.Sound) (hn : n.SoundIn (fs.nodes.size + 1)) :
    (fs.addNode n).2.Sound := by
  unfold FileSystem.addNode
  refine ⟨?_, ?_⟩
  · rw [Array.size_push]
    exact Nat.lt_succ_of_lt sound.working
  · intro m hm
    rw [Array.size_push]
    rw [Array.toList_push] at hm
    rcases List.mem_append.1 hm with hm | hm
    · exact (sound.nodes m hm).mono (Nat.le_succ _)
    · cases List.mem_singleton.1 hm
      exact hn

theorem setNode (sound : fs.Sound) (hn : n.SoundIn fs.nodes.size) : (fs.setNode id n).Sound := by
  refine ⟨?_, ?_⟩
  · rw [size_setNode]
    exact sound.working
  · intro m hm
    rw [size_setNode]
    obtain ⟨i, hi⟩ := List.mem_iff_getElem?.1 hm
    have hnode : (fs.setNode id n).node? i = some m := by
      unfold node?
      rw [← Array.getElem?_toList]
      exact hi
    -- The node is an old one or the one that was set.
    rcases Nat.decEq i id with hne | rfl
    · rw [node?_setNode_of_ne n hne] at hnode
      exact sound.of_node? hnode
    · have hlt := node?_lt hnode
      rw [size_setNode] at hlt
      rw [node?_setNode_self n hlt] at hnode
      cases hnode
      exact hn

/-- A directory may be given other entries, if those are sound. -/
theorem setEntries (sound : fs.Sound) {change : List DirEntry → List DirEntry}
    (h : ∀ e ∈ change (fs.entries dir),
      e ∈ fs.entries dir ∨ e.node < fs.nodes.size ∧ e.name.IsStep) :
    (fs.setEntries dir change).Sound := by
  unfold FileSystem.setEntries
  split
  · next es parent mode mtime hnode =>
    have hkind : fs.kind? dir = some (.directory es parent) := kind?_eq_some_iff.2 ⟨_, hnode, rfl⟩
    rw [entries_of_kind? hkind] at h
    apply sound.setNode
    refine ⟨(sound.of_directory hkind).1, fun e he => ?_⟩
    rcases h e he with old | new
    · exact (sound.of_directory hkind).2 e old
    · exact new
  · exact sound

theorem link (sound : fs.Sound) (hid : id < fs.nodes.size) (hname : name.IsStep) :
    (fs.link dir name id).Sound := by
  apply sound.setEntries
  intro e he
  rcases mem_insertEntry_iff.1 he with rfl | he
  · exact .inr ⟨hid, hname⟩
  · exact .inl he

theorem unlink (sound : fs.Sound) : (fs.unlink dir name).Sound := by
  apply sound.setEntries
  intro e he
  exact .inl (List.mem_filter.1 he).1

theorem create (sound : fs.Sound) (hn : n.SoundIn (fs.nodes.size + 1)) (hname : name.IsStep) :
    (fs.create dir name n).2.Sound := by
  refine (sound.addNode hn).link ?_ hname
  show fs.nodes.size < (fs.nodes.push n).size
  rw [Array.size_push]
  exact Nat.lt_succ_self _

theorem setContent (sound : fs.Sound) (content : Content) : (fs.setContent id content).Sound := by
  unfold FileSystem.setContent
  split
  · exact sound.setNode trivial
  · exact sound

end Sound

/-! ## §2. Names that are free. -/

/-- A name that is free where a path leads is a step of a path. -/
theorem isStep_of_follow {followLast : Bool} {links : Nat} {start : NodeId}
    {segments : List (List UInt8)} {slash : Bool} (hsegments : ∀ s ∈ segments, Path.slash ∉ s)
    (h : fs.follow followLast links start segments = .ok (.absent dir name slash)) :
    name.IsStep := by
  fun_induction FileSystem.follow fs followLast links start segments with
  | case3 _ _ _ _ _ _ ih => exact ih (fun s hs => hsegments s (List.mem_cons_of_mem _ hs)) h
  | case4 _ _ _ _ _ ih => exact ih (fun s hs => hsegments s (List.mem_cons_of_mem _ hs)) h
  | case6 _ _ segment _ _ hskip hup _ _ _ =>
    cases h
    exact ⟨isEntryName_iff.2 ⟨hskip, hup⟩, hsegments segment List.mem_cons_self⟩
  | case10 _ _ rest _ _ _ _ _ _ target _ _ _ ih =>
    refine ih ?_ (by simpa using h)
    intro s hs
    rcases List.mem_append.1 hs with hs | hs
    · exact Path.slash_notMem_of_mem_segmentsOf hs
    · exact hsegments s (List.mem_cons_of_mem _ hs)
  | case11 _ _ _ _ _ _ _ _ _ _ _ _ ih =>
    exact ih (fun s hs => hsegments s (List.mem_cons_of_mem _ hs)) h
  | _ => cases h

theorem isStep_of_resolve {followLast slash : Bool}
    (h : fs.resolve p followLast = .ok (.absent dir name slash)) : name.IsStep :=
  isStep_of_follow (fun _ hs => Path.slash_notMem_of_mem_segmentsOf hs) (resolve_eq_ok.1 h).2

theorem FreeAt.isStep (h : fs.FreeAt p dir name) : name.IsStep := by
  obtain ⟨-, -, before, hlast, -⟩ := holder_eq_ok.1 h.holder
  have written : name.bytes ≠ [] := fun hnil => (isEntryName_iff.1 h.isName).1 (.inl hnil)
  obtain ⟨empties, -, hsegments⟩ := Path.segmentsOf_lastStep hlast written
  have hmem : name.bytes ∈ Path.segmentsOf p.bytes := by
    rw [hsegments]
    exact List.mem_append_right _ List.mem_cons_self
  exact ⟨h.isName, Path.slash_notMem_of_mem_segmentsOf hmem⟩

/-! ## §3. Operations. -/

namespace Sound

theorem makeNode (sound : fs.Sound) {n : NodeId → Node}
    (hn : ∀ dir < fs.nodes.size, (n dir).SoundIn (fs.nodes.size + 1))
    (h : fs.makeNode p n = .ok fs') : fs'.Sound := by
  obtain ⟨dir, name, free, rfl⟩ := makeNode_eq_ok h
  exact sound.create (hn dir (isDirectoryAt_lt free.directory)) free.isStep

theorem makeDirectory (sound : fs.Sound) (h : fs.makeDirectory p = .ok fs') : fs'.Sound := by
  refine sound.makeNode ?_ h
  intro dir hdir
  exact ⟨Nat.lt_succ_of_lt hdir, fun e he => absurd he List.not_mem_nil⟩

theorem openWrite (sound : fs.Sound) (h : fs.openWrite p = .ok (id, fs')) : fs'.Sound := by
  unfold FileSystem.openWrite at h
  split at h
  · obtain ⟨_, -, h⟩ := bind_eq_ok.1 h
    cases h
  · obtain ⟨found | ⟨dir, name, slash⟩, hresolve, h⟩ := bind_eq_ok.1 h
    · dsimp only at h
      split at h
      · cases h
      · cases h
      · cases h
        exact sound.setContent _
      · cases h
    · dsimp only at h
      split at h
      · cases h
      · cases h
        exact sound.create trivial (isStep_of_resolve hresolve)

theorem writeAll (sound : fs.Sound) {data : ByteArray} (h : fs.writeAll id data = .ok fs') :
    fs'.Sound := by
  unfold FileSystem.writeAll at h
  split at h
  · split at h
    · cases h
      exact sound
    · cases h
  · cases h
    exact sound.setContent _

theorem setAttributes (sound : fs.Sound) {mode : Nat} {mtime : Int}
    (h : fs.setAttributes p mode mtime = .ok fs') : fs'.Sound := by
  obtain ⟨id, -, h⟩ := bind_eq_ok.1 h
  cases hnode : fs.node? id with
  | none =>
    rw [hnode] at h
    cases h
  | some n =>
    rw [hnode] at h
    cases h
    have hn : Node.SoundIn fs.nodes.size n := sound.of_node? hnode
    exact sound.setNode hn

theorem resize (sound : fs.Sound) {size : Nat} (h : fs.resize p size = .ok fs') : fs'.Sound := by
  obtain ⟨id, -, h⟩ := bind_eq_ok.1 h
  split at h
  · cases h
    exact sound.setContent _
  all_goals cases h

theorem remove (sound : fs.Sound) (h : fs.remove p = .ok fs') : fs'.Sound := by
  obtain ⟨found | _, -, h⟩ := bind_eq_ok.1 h
  · obtain ⟨⟨dir, name⟩, -, h⟩ := bind_eq_ok.1 h
    dsimp only at h
    split at h
    · cases h
      exact sound.unlink
    · cases h
  · cases h

/-! ## §4. Changes that others make. -/

theorem attempt (sound : fs.Sound) {result : Except FileError FileSystem}
    (h : ∀ fs', result = .ok fs' → fs'.Sound) : (fs.attempt result).2.Sound := by
  cases result with
  | ok fs' => exact h fs' rfl
  | error e => exact sound

theorem ensureDirectory (sound : fs.Sound) : (fs.ensureDirectory p).2.Sound := by
  unfold FileSystem.ensureDirectory
  split
  · next fs' hmake => exact sound.makeDirectory hmake
  · exact sound

theorem makeDirectories (sound : fs.Sound) (depth : Nat) (p : Path) :
    (fs.makeDirectories depth p).2.Sound := by
  induction depth generalizing p with
  | zero => exact sound
  | succ depth ih =>
    unfold FileSystem.makeDirectories
    split
    · split
      · exact sound.ensureDirectory
      · next parent _ =>
        have above := ih parent
        split
        · next fs' hmade =>
          rw [hmade] at above
          exact above.ensureDirectory
        · exact above
    · exact sound.ensureDirectory

/-- **A change that others make** leaves a sound disk. -/
theorem perform (sound : fs.Sound) (e : Edit) : (e.perform fs).2.Sound := by
  cases e with
  | write path content stamp =>
    apply sound.attempt
    intro fs' h
    obtain ⟨⟨id, opened⟩, hopen, h⟩ := bind_eq_ok.1 h
    obtain ⟨written, hwrite, h⟩ := bind_eq_ok.1 h
    exact (((sound.openWrite hopen).writeAll hwrite).setContent _).setAttributes h
  | makeDirectory path stamp =>
    -- If not all directories can be made, those that were made stay.
    have made := sound.makeDirectories ((Path.segmentsOf path.bytes).length + 1) path
    rw [Edit.perform]
    rcases hmade : fs.makeDirectories ((Path.segmentsOf path.bytes).length + 1) path
      with ⟨e | _, fs'⟩ <;> rw [hmade] at made
    · exact made
    · exact made.attempt fun _ h => made.setAttributes h
  | resize path size stamp =>
    apply sound.attempt
    intro fs' h
    obtain ⟨resized, hresize, h⟩ := bind_eq_ok.1 h
    exact (sound.resize hresize).setAttributes h
  | symlink path target =>
    apply sound.attempt
    intro fs' h
    obtain ⟨_, -, h⟩ := bind_eq_ok.1 h
    refine sound.makeNode ?_ h
    exact fun _ _ => trivial
  | fifo path =>
    apply sound.attempt
    intro fs' h
    refine sound.makeNode ?_ h
    exact fun _ _ => trivial
  | socket path =>
    apply sound.attempt
    intro fs' h
    unfold makeSocket at h
    cases hmake : fs.makeNode path (fun _ => ⟨.socket, Node.directoryMode, 0⟩) with
    | error e =>
      rw [hmake] at h
      cases h
    | ok made =>
      rw [hmake] at h
      cases h
      refine sound.makeNode ?_ hmake
      exact fun _ _ => trivial
  | remove path => exact sound.attempt fun _ h => sound.remove h

/-- **Changes one after the other.** -/
theorem applyEdits (sound : fs.Sound) (edits : List Edit) : (fs.applyEdits edits).Sound := by
  unfold FileSystem.applyEdits
  induction edits generalizing fs with
  | nil => exact sound
  | cons e edits ih => exact ih (sound.perform e)

end Sound

theorem sound_devices : devices.Sound := by
  decide

/-- **A fresh disk is sound.** -/
theorem sound_fresh (workingPath tempPath : Path) : (fresh workingPath tempPath).Sound := by
  have made := sound_devices.applyEdits [.makeDirectory workingPath ⟨Node.directoryMode, 0⟩,
    .makeDirectory tempPath ⟨Node.directoryMode, 0⟩]
  unfold fresh
  refine ⟨?_, made.nodes⟩
  dsimp only
  -- The working directory is the one that was made, or the root if there is none.
  rcases hlocate : FileSystem.locate _ workingPath with e | id
  · exact made.root_lt
  · exact locate_lt made hlocate

end FileSystem
end ArtifactCourier
