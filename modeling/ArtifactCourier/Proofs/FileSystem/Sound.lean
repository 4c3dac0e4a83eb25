/-
  ArtifactCourier.Proofs.FileSystem.Sound
  ──────────────────────────────────────
  **Disks that hang together, and disks on which everything is kept.**

  On a sound disk every directory names nodes that are there, under names that are single
  steps of a path.  What is added to a sound disk cannot be reached from it, as long as no
  directory names it; so a disk on which all old nodes are as they were answers every
  question about a path as the old disk does.

    • `FileSystem.Sound` — the invariant, which can be computed,
    • `FileSystem.Alike` — two disks differ in their nodes only,
    • `FileSystem.Kept` — everything that was on a disk is on another one as it was,
    • `follow_kept` — then paths lead to the same places,
    • `stat_kept`, `bytesAt_kept`, `readDirectory_kept` — and what is found there is the same,
    • `FileSystem.Grows`, `follow_grows` — where directories hold more than they did, a path
      that led to a node still leads there.
-/
import ArtifactCourier.Proofs.FileSystem.Follow

namespace ArtifactCourier

/-! ## §1. Soundness. -/

/-- A name is a single step of a path that leads to an entry. -/
def RawText.IsStep (name : RawText) : Prop :=
  FileSystem.isEntryName name = true ∧ Path.slash ∉ name.bytes

instance (name : RawText) : Decidable name.IsStep := inferInstanceAs (Decidable (_ ∧ _))

/-- A node names only nodes whose numbers are below `size`, under names that are single steps. -/
def Node.SoundIn (size : Nat) (n : Node) : Prop :=
  match n.kind with
  | .directory entries parent => parent < size ∧ ∀ e ∈ entries, e.node < size ∧ e.name.IsStep
  | _ => True

instance (size : Nat) (n : Node) : Decidable (n.SoundIn size) :=
  match n with
  | ⟨.directory _ _, _, _⟩ => inferInstanceAs (Decidable (_ ∧ _))
  | ⟨.file _, _, _⟩ => isTrue trivial
  | ⟨.symlink _, _, _⟩ => isTrue trivial
  | ⟨.fifo, _, _⟩ => isTrue trivial
  | ⟨.socket, _, _⟩ => isTrue trivial
  | ⟨.nullDevice, _, _⟩ => isTrue trivial
  | ⟨.fullDevice, _, _⟩ => isTrue trivial

namespace FileSystem

/-- **A disk hangs together.** -/
structure Sound (fs : FileSystem) : Prop where
  /-- The working directory is on the disk; so the disk is not empty, and has a root. -/
  working : fs.workingDirectory < fs.nodes.size
  /-- No directory names what is not there. -/
  nodes : ∀ n ∈ fs.nodes.toList, n.SoundIn fs.nodes.size

instance (fs : FileSystem) : Decidable fs.Sound :=
  decidable_of_iff (fs.workingDirectory < fs.nodes.size ∧
      ∀ n ∈ fs.nodes.toList, n.SoundIn fs.nodes.size)
    ⟨fun h => ⟨h.1, h.2⟩, fun h => ⟨h.1, h.2⟩⟩

variable {fs fs' : FileSystem} {id : NodeId}

theorem kind?_eq_some_iff {k : NodeKind} :
    fs.kind? id = some k ↔ ∃ n, fs.node? id = some n ∧ n.kind = k := by
  unfold kind?
  rw [Option.map_eq_some_iff]

theorem node?_lt {n : Node} (h : fs.node? id = some n) : id < fs.nodes.size :=
  (Array.getElem?_eq_some_iff.1 h).1

namespace Sound

theorem root_lt (sound : fs.Sound) : root < fs.nodes.size :=
  Nat.lt_of_le_of_lt (Nat.zero_le _) sound.working

theorem startOf_lt (sound : fs.Sound) (p : Path) : fs.startOf p < fs.nodes.size := by
  unfold startOf
  split
  · exact sound.root_lt
  · exact sound.working

/-- What a directory says about other nodes is sound. -/
theorem of_directory (sound : fs.Sound) {entries : List DirEntry} {parent : NodeId}
    (h : fs.kind? id = some (.directory entries parent)) :
    parent < fs.nodes.size ∧ ∀ e ∈ entries, e.node < fs.nodes.size ∧ e.name.IsStep := by
  obtain ⟨n, hn, hkind⟩ := kind?_eq_some_iff.1 h
  have soundIn := sound.nodes n (Array.mem_toList_iff.2 (Array.mem_of_getElem? hn))
  rw [Node.SoundIn, hkind] at soundIn
  exact soundIn

theorem of_mem_entries (sound : fs.Sound) {e : DirEntry} (h : e ∈ fs.entries id) :
    e.node < fs.nodes.size ∧ e.name.IsStep := by
  unfold entries at h
  split at h
  · next hkind => exact (sound.of_directory hkind).2 e h
  · cases h

theorem child?_lt (sound : fs.Sound) {name : RawText} {child : NodeId}
    (h : fs.child? id name = some child) : child < fs.nodes.size := by
  obtain ⟨e, he, rfl⟩ := Option.map_eq_some_iff.1 h
  exact (sound.of_mem_entries (List.mem_of_find?_eq_some he)).1

theorem parentOf_lt (sound : fs.Sound) (h : id < fs.nodes.size) :
    fs.parentOf id < fs.nodes.size := by
  unfold parentOf
  split
  · next hkind => exact (sound.of_directory hkind).1
  · exact h

end Sound

/-! ## §2. Disks on which everything is kept. -/

/-- Two disks may hold different nodes, but all else that no operation changes is the same. -/
structure Alike (fs fs' : FileSystem) : Prop where
  workingDirectory : fs'.workingDirectory = fs.workingDirectory
  workingPath : fs'.workingPath = fs.workingPath
  tempPath : fs'.tempPath = fs.tempPath
  owners : fs'.owners = fs.owners
  breaks : fs'.breaks = fs.breaks

theorem Alike.refl (fs : FileSystem) : fs.Alike fs := ⟨rfl, rfl, rfl, rfl, rfl⟩

theorem Alike.trans {mid : FileSystem} (first : fs.Alike mid) (second : mid.Alike fs') :
    fs.Alike fs' where
  workingDirectory := second.workingDirectory.trans first.workingDirectory
  workingPath := second.workingPath.trans first.workingPath
  tempPath := second.tempPath.trans first.tempPath
  owners := second.owners.trans first.owners
  breaks := second.breaks.trans first.breaks

theorem Alike.startOf (alike : fs.Alike fs') (p : Path) : fs'.startOf p = fs.startOf p := by
  unfold FileSystem.startOf
  rw [alike.workingDirectory]

/-- Everything that was on a disk is on another one as it was; the latter may hold more. -/
structure Kept (fs fs' : FileSystem) : Prop extends fs.Alike fs' where
  node : ∀ id < fs.nodes.size, fs'.node? id = fs.node? id

namespace Kept

theorem refl (fs : FileSystem) : fs.Kept fs := ⟨.refl fs, fun _ _ => rfl⟩

theorem size_le (kept : fs.Kept fs') : fs.nodes.size ≤ fs'.nodes.size := by
  apply Nat.le_of_not_lt
  intro hlast
  have old := kept.node _ hlast
  unfold node? at old
  rw [Array.getElem?_eq_none (Nat.le_refl _), Array.getElem?_eq_getElem hlast] at old
  cases old

theorem kind? (kept : fs.Kept fs') (h : id < fs.nodes.size) : fs'.kind? id = fs.kind? id := by
  unfold FileSystem.kind?
  rw [kept.node id h]

theorem entries (kept : fs.Kept fs') (h : id < fs.nodes.size) :
    fs'.entries id = fs.entries id := by
  unfold FileSystem.entries
  rw [kept.kind? h]

theorem child? (kept : fs.Kept fs') (h : id < fs.nodes.size) (name : RawText) :
    fs'.child? id name = fs.child? id name := by
  unfold FileSystem.child?
  rw [kept.entries h]

theorem listing (kept : fs.Kept fs') (h : id < fs.nodes.size) : fs'.listing id = fs.listing id := by
  unfold FileSystem.listing names
  rw [kept.entries h, kept.breaks]

theorem parentOf (kept : fs.Kept fs') (h : id < fs.nodes.size) :
    fs'.parentOf id = fs.parentOf id := by
  unfold FileSystem.parentOf
  rw [kept.kind? h]

theorem isDirectoryAt (kept : fs.Kept fs') (h : id < fs.nodes.size) :
    fs'.isDirectoryAt id = fs.isDirectoryAt id := by
  unfold FileSystem.isDirectoryAt
  rw [kept.node id h]

theorem linkTarget? (kept : fs.Kept fs') (h : id < fs.nodes.size) :
    fs'.linkTarget? id = fs.linkTarget? id := by
  unfold FileSystem.linkTarget?
  rw [kept.kind? h]

end Kept

/-- **Paths lead to the same places.**  The induction is on the way through the old disk. -/
theorem follow_kept (sound : fs.Sound) (kept : fs.Kept fs') (followLast : Bool) (links : Nat)
    (dir : NodeId) (segments : List (List UInt8)) (hdir : dir < fs.nodes.size) :
    fs'.follow followLast links dir segments = fs.follow followLast links dir segments := by
  -- What the step at a directory looks at is the same on both disks.
  have directory : ∀ d < fs.nodes.size, ¬ (!fs.isDirectoryAt d) = true →
      fs'.isDirectoryAt d = true := by
    intro d hd there
    rw [kept.isDirectoryAt hd]
    simpa using there
  have child : ∀ d < fs.nodes.size, ∀ name answer, fs.child? d name = answer →
      fs'.child? d name = answer := by
    intro d hd name answer hchild
    rw [kept.child? hd, hchild]
  have link : ∀ d name id answer, fs.child? d name = some id → fs.linkTarget? id = answer →
      fs'.linkTarget? id = answer := by
    intro d name id answer hchild hlink
    rw [kept.linkTarget? (sound.child?_lt hchild), hlink]
  fun_induction FileSystem.follow fs followLast links dir segments with
  | case1 => exact follow_nil
  | case2 _ _ _ _ there =>
    apply follow_of_not_directory
    rw [kept.isDirectoryAt hdir]
    simpa using there
  | case3 _ dir _ _ there hskip ih =>
    rw [follow_skip (directory dir hdir there) hskip]
    exact ih hdir
  | case4 _ dir _ there _ ih =>
    rw [follow_up (directory dir hdir there), kept.parentOf hdir]
    exact ih (sound.parentOf_lt hdir)
  | case5 _ dir _ _ there hskip hup long =>
    exact follow_tooLong (directory dir hdir there) (isEntryName_iff.2 ⟨hskip, hup⟩) long
  -- The name is free: at the end of the path, and before.
  | case6 _ dir _ _ there hskip hup short hchild last =>
    rw [follow_absent (directory dir hdir there) (isEntryName_iff.2 ⟨hskip, hup⟩) short
      (child dir hdir _ _ hchild), if_pos last]
  | case7 _ dir _ _ there hskip hup short hchild last =>
    rw [follow_absent (directory dir hdir there) (isEntryName_iff.2 ⟨hskip, hup⟩) short
      (child dir hdir _ _ hchild), if_neg last]
  -- The name is that of a link: it is found itself, it is one too many, or it is followed.
  | case8 _ dir _ _ there hskip hup short _ hchild _ hlink last =>
    rw [follow_link (directory dir hdir there) (isEntryName_iff.2 ⟨hskip, hup⟩) short
      (child dir hdir _ _ hchild) (link _ _ _ _ hchild hlink), if_pos last]
  | case9 dir _ _ there hskip hup short _ hchild _ hlink last =>
    rw [follow_link (directory dir hdir there) (isEntryName_iff.2 ⟨hskip, hup⟩) short
      (child dir hdir _ _ hchild) (link _ _ _ _ hchild hlink), if_neg last]
  | case10 dir _ _ there hskip hup short _ hchild _ hlink last _ ih =>
    rw [follow_link (directory dir hdir there) (isEntryName_iff.2 ⟨hskip, hup⟩) short
      (child dir hdir _ _ hchild) (link _ _ _ _ hchild hlink), if_neg last]
    simp only [dite_eq_ite] at ih
    apply ih
    split
    · exact sound.root_lt
    · exact hdir
  -- The name is that of another entry, which is passed through or is in the way.
  | case11 _ dir _ _ there hskip hup short _ hchild hlink more ih =>
    rw [follow_entry (directory dir hdir there) (isEntryName_iff.2 ⟨hskip, hup⟩) short
      (child dir hdir _ _ hchild) (link _ _ _ _ hchild hlink),
      kept.isDirectoryAt (sound.child?_lt hchild), if_pos more]
    exact ih (sound.child?_lt hchild)
  | case12 _ dir _ _ there hskip hup short _ hchild hlink more =>
    rw [follow_entry (directory dir hdir there) (isEntryName_iff.2 ⟨hskip, hup⟩) short
      (child dir hdir _ _ hchild) (link _ _ _ _ hchild hlink),
      kept.isDirectoryAt (sound.child?_lt hchild), if_neg more]

theorem resolve_kept (sound : fs.Sound) (kept : fs.Kept fs') (p : Path) (followLast : Bool) :
    fs'.resolve p followLast = fs.resolve p followLast := by
  unfold resolve
  rw [kept.startOf, follow_kept sound kept _ _ _ _ (sound.startOf_lt p)]

/-- A path that leads to a node leads to one that is on the disk. -/
theorem follow_lt (sound : fs.Sound) {followLast : Bool} {links : Nat} {dir : NodeId}
    {segments : List (List UInt8)} (hdir : dir < fs.nodes.size)
    (h : fs.follow followLast links dir segments = .ok (.found id)) : id < fs.nodes.size := by
  -- Every directory on the way is on the disk, and names only nodes that are.
  fun_induction FileSystem.follow fs followLast links dir segments with
  | case1 =>
    cases h
    exact hdir
  | case3 _ _ _ _ _ _ ih => exact ih hdir h
  | case4 _ _ _ _ _ ih => exact ih (sound.parentOf_lt hdir) h
  | case8 _ _ _ _ _ _ _ _ _ hchild =>
    cases h
    exact sound.child?_lt hchild
  | case10 _ _ _ _ _ _ _ _ _ link _ _ links ih =>
    refine ih ?_ (by simpa using h)
    split
    · exact sound.root_lt
    · exact hdir
  | case11 _ _ _ _ _ _ _ _ _ hchild _ _ ih => exact ih (sound.child?_lt hchild) h
  | _ => cases h

/-- The last step of a path is taken in the same directory. -/
theorem holder_kept (sound : fs.Sound) (kept : fs.Kept fs') (p : Path) :
    fs'.holder p = fs.holder p := by
  unfold holder
  rcases checkPath p with e | _
  · rfl
  dsimp only [bind, Except.bind]
  rw [kept.startOf, follow_kept sound kept _ _ _ _ (sound.startOf_lt p)]
  rcases hfollow : fs.follow true maxLinks (fs.startOf p) p.lastStep.1 with e | (dir | _)
  · rfl
  · dsimp only
    rw [kept.isDirectoryAt (follow_lt sound (sound.startOf_lt p) hfollow)]
  · rfl

theorem locate_eq_ok {p : Path} :
    fs.locate p = .ok id ↔ fs.resolve p true = .ok (.found id) := by
  unfold locate
  rcases fs.resolve p true with e | (found | absent)
  · simp [bind, Except.bind]
  · simp [bind, Except.bind]
  · simp [bind, Except.bind]

/-- A path that the operating system accepts has no zero byte and is not too long. -/
theorem plain_of_checkPath {p : Path} (h : checkPath p = .ok ()) :
    0 ∉ p.bytes ∧ p.bytes.length < maxPathLength := by
  unfold checkPath at h
  split at h
  · cases h
  · next plain =>
    split at h
    · cases h
    · split at h
      · cases h
      · next short =>
        exact ⟨fun zero => plain (List.contains_iff_mem.2 zero), Nat.lt_of_not_le short⟩

theorem resolve_eq_ok {p : Path} {followLast : Bool} {r : Resolved} :
    fs.resolve p followLast = .ok r ↔
      checkPath p = .ok () ∧
        fs.follow followLast maxLinks (fs.startOf p) (Path.segmentsOf p.bytes) = .ok r := by
  unfold resolve
  rcases checkPath p with e | _
  · simp [bind, Except.bind]
  · simp [bind, Except.bind]

theorem locate_lt (sound : fs.Sound) {p : Path} (h : fs.locate p = .ok id) :
    id < fs.nodes.size :=
  follow_lt sound (sound.startOf_lt p) (resolve_eq_ok.1 (locate_eq_ok.1 h)).2

theorem locate_kept (sound : fs.Sound) (kept : fs.Kept fs') (p : Path) :
    fs'.locate p = fs.locate p := by
  unfold locate
  rw [resolve_kept sound kept]

/-- What a path leads to is the same. -/
theorem stat_kept (sound : fs.Sound) (kept : fs.Kept fs') (p : Path) :
    fs'.stat p = fs.stat p := by
  unfold stat
  rw [locate_kept sound kept]
  cases h : fs.locate p with
  | error e => rfl
  | ok id =>
    dsimp only [bind, Except.bind]
    rw [kept.node id (locate_lt sound h)]

theorem openRead_kept (sound : fs.Sound) (kept : fs.Kept fs') (p : Path) :
    fs'.openRead p = fs.openRead p := by
  unfold openRead
  rw [locate_kept sound kept]
  cases h : fs.locate p with
  | error e => rfl
  | ok id =>
    dsimp only [bind, Except.bind]
    rw [kept.kind? (locate_lt sound h)]

theorem openRead_eq_ok {p : Path} (h : fs.openRead p = .ok id) : fs.locate p = .ok id := by
  unfold openRead at h
  cases hlocate : fs.locate p with
  | error e =>
    rw [hlocate] at h
    cases h
  | ok found =>
    rw [hlocate] at h
    dsimp only [bind, Except.bind] at h
    split at h
    · cases h
    · cases h
      rfl
    · cases h

/-- What is read from a file is the same. -/
theorem bytesAt_kept (sound : fs.Sound) (kept : fs.Kept fs') (p : Path) :
    fs'.bytesAt p = fs.bytesAt p := by
  unfold bytesAt
  rw [openRead_kept sound kept]
  cases h : fs.openRead p with
  | error e => rfl
  | ok id =>
    show fs'.readAll id = fs.readAll id
    unfold readAll
    rw [kept.kind? (locate_lt sound (openRead_eq_ok h))]

/-- Reading a directory gives the same. -/
theorem readDirectory_kept (sound : fs.Sound) (kept : fs.Kept fs') (p : Path) :
    fs'.readDirectory p = fs.readDirectory p := by
  unfold readDirectory
  rw [locate_kept sound kept]
  cases h : fs.locate p with
  | error e => rfl
  | ok id =>
    show (if fs'.isDirectoryAt id then _ else _) = if fs.isDirectoryAt id then _ else _
    rw [kept.isDirectoryAt (locate_lt sound h), kept.listing (locate_lt sound h)]

/-- A directory is listed by reading it to its end. -/
theorem listDirectory_eq_ok {p : Path} {names : List RawText} :
    fs.listDirectory p = .ok names ↔ fs.readDirectory p = .ok ⟨names, .ok ()⟩ := by
  unfold listDirectory
  rcases fs.readDirectory p with e | ⟨found, e | _⟩ <;> simp [bind, Except.bind, pure, Except.pure]

/-- The names in a directory are single steps. -/
theorem isStep_of_readDirectory (sound : fs.Sound) {p : Path} {l : Listing}
    (h : fs.readDirectory p = .ok l) : ∀ name ∈ l.names, name.IsStep := by
  unfold readDirectory at h
  obtain ⟨id, -, h⟩ := bind_eq_ok.1 h
  have step : ∀ name ∈ fs.names id, name.IsStep := by
    intro name hname
    obtain ⟨e, he, rfl⟩ := List.mem_map.1 hname
    exact (sound.of_mem_entries he).2
  split at h
  · cases h
    unfold listing
    split
    · exact step
    · exact fun name hname => step name (List.mem_of_mem_take hname)
  · cases h

theorem isStep_of_listDirectory (sound : fs.Sound) {p : Path} {names : List RawText}
    (h : fs.listDirectory p = .ok names) : ∀ name ∈ names, name.IsStep :=
  isStep_of_readDirectory sound (listDirectory_eq_ok.1 h)

/-! ## §3. Disks on which entries were added. -/

/-- Files and links are as they were, directories hold what they held; they may hold more. -/
structure Grows (fs fs' : FileSystem) : Prop extends fs.Alike fs' where
  node : ∀ id < fs.nodes.size, fs.isDirectoryAt id = false → fs'.node? id = fs.node? id
  directory : ∀ id, fs.isDirectoryAt id = true → fs'.isDirectoryAt id = true
  parentOf : ∀ id, fs.isDirectoryAt id = true → fs'.parentOf id = fs.parentOf id
  child? : ∀ id name child, fs.child? id name = some child → fs'.child? id name = some child

namespace Grows

theorem linkTarget? (grows : fs.Grows fs') (h : id < fs.nodes.size) :
    fs'.linkTarget? id = fs.linkTarget? id := by
  cases hdir : fs.isDirectoryAt id with
  | true =>
    rw [linkTarget?_of_isDirectoryAt hdir,
      linkTarget?_of_isDirectoryAt (grows.directory id hdir)]
  | false =>
    unfold FileSystem.linkTarget? kind?
    rw [grows.node id h hdir]

end Grows

/-- **A path goes the way it went**, if the links on it do.  Where it led to a node it still leads
there; where it ended at a free name, `absent` says where that name leads now. -/
theorem follow_grows_to (grows : fs.Grows fs')
    (sameLinks : ∀ id name child, fs.child? id name = some child →
      fs'.linkTarget? child = fs.linkTarget? child)
    {followLast : Bool} {links : Nat} {dir : NodeId} {segments : List (List UInt8)}
    {r r' : Resolved} (h : fs.follow followLast links dir segments = .ok r)
    (found : ∀ id, r = .found id → r' = .found id)
    (absent : ∀ links dir segment rest, fs.isDirectoryAt dir = true → isEntryName ⟨segment⟩ = true →
      ¬ segment.length > maxNameLength → fs.child? dir ⟨segment⟩ = none →
      r = .absent dir ⟨segment⟩ (!rest.isEmpty) →
      fs'.follow followLast links dir (segment :: rest) = .ok r') :
    fs'.follow followLast links dir segments = .ok r' := by
  -- Only the cases that succeed are left; in these, what the step looked at is there.
  fun_induction FileSystem.follow fs followLast links dir segments with
  | case1 =>
    cases h
    rw [follow_nil, found _ rfl]
  | case3 _ dir _ _ there hskip ih =>
    rw [follow_skip (grows.directory dir (by simpa using there)) hskip]
    exact ih h
  | case4 _ dir _ there _ ih =>
    have directory : fs.isDirectoryAt dir = true := by simpa using there
    rw [follow_up (grows.directory dir directory), grows.parentOf dir directory]
    exact ih h
  | case6 links dir segment rest there hskip hup short hchild =>
    exact absent links dir segment rest (by simpa using there) (isEntryName_iff.2 ⟨hskip, hup⟩) short
      hchild (Except.ok.inj h).symm
  | case8 _ dir _ _ there hskip hup short _ hchild _ hlink last =>
    rw [follow_link (grows.directory dir (by simpa using there)) (isEntryName_iff.2 ⟨hskip, hup⟩)
      short (grows.child? _ _ _ hchild)
      ((sameLinks _ _ _ hchild).trans hlink), if_pos last]
    cases h
    rw [found _ rfl]
  | case10 dir _ _ there hskip hup short _ hchild link hlink last links ih =>
    rw [follow_link (grows.directory dir (by simpa using there)) (isEntryName_iff.2 ⟨hskip, hup⟩)
      short (grows.child? _ _ _ hchild)
      ((sameLinks _ _ _ hchild).trans hlink), if_neg last]
    simp only [dite_eq_ite] at ih
    exact ih h
  | case11 _ dir _ rest there hskip hup short child hchild hlink more ih =>
    have still : (rest.isEmpty || fs'.isDirectoryAt child) = true := by
      rcases Bool.or_eq_true_iff.1 more with last | directory
      · rw [last, Bool.true_or]
      · rw [grows.directory child directory, Bool.or_true]
    rw [follow_entry (grows.directory dir (by simpa using there)) (isEntryName_iff.2 ⟨hskip, hup⟩)
      short (grows.child? _ _ _ hchild)
      ((sameLinks _ _ _ hchild).trans hlink), if_pos still]
    exact ih h
  | _ => cases h

/-- **A path that led to a node still leads there.** -/
theorem follow_grows (sound : fs.Sound) (grows : fs.Grows fs') {followLast : Bool} {links : Nat}
    {dir : NodeId} {segments : List (List UInt8)}
    (h : fs.follow followLast links dir segments = .ok (.found id)) :
    fs'.follow followLast links dir segments = .ok (.found id) :=
  follow_grows_to grows (fun _ _ _ hchild => grows.linkTarget? (sound.child?_lt hchild)) h
    (fun _ same => same) nofun

theorem locate_grows (sound : fs.Sound) (grows : fs.Grows fs') {p : Path}
    (h : fs.locate p = .ok id) : fs'.locate p = .ok id := by
  obtain ⟨path, follow⟩ := resolve_eq_ok.1 (locate_eq_ok.1 h)
  apply locate_eq_ok.2
  apply resolve_eq_ok.2
  rw [grows.startOf]
  exact ⟨path, follow_grows sound grows follow⟩

theorem ownerAt_of_locate {p : Path} (h : fs.locate p = .ok id) : fs.ownerAt p = fs.owners id := by
  unfold ownerAt
  rw [h]
  rfl

theorem ownerAt_grows (sound : fs.Sound) (grows : fs.Grows fs') {p : Path}
    (h : fs.locate p = .ok id) : fs'.ownerAt p = fs.ownerAt p := by
  rw [ownerAt_of_locate h, ownerAt_of_locate (locate_grows sound grows h), grows.owners]

theorem stat_eq_ok {p : Path} {n : Node} :
    fs.stat p = .ok n ↔ ∃ id, fs.locate p = .ok id ∧ fs.node? id = some n := by
  unfold stat
  cases hlocate : fs.locate p with
  | error e => simp [bind, Except.bind]
  | ok id => cases hnode : fs.node? id <;> simp [bind, Except.bind, hnode]

/-- **A regular file is found where it was, and as it was.** -/
theorem file_grows (sound : fs.Sound) (grows : fs.Grows fs') {p : Path} {n : Node}
    (hlocate : fs.locate p = .ok id) (hnode : fs.node? id = some n) (regular : n.isFile = true) :
    fs'.locate p = .ok id ∧ fs'.node? id = some n := by
  -- A regular file is no directory, so its node is the same.
  have hdir : fs.isDirectoryAt id = false := by
    unfold isDirectoryAt
    rw [hnode]
    obtain ⟨kind, mode, mtime⟩ := n
    cases kind <;> first | rfl | cases regular
  exact ⟨locate_grows sound grows hlocate, (grows.node id (node?_lt hnode) hdir).trans hnode⟩

/-- A regular file is read. -/
theorem bytesAt_of_file {p : Path} {content : Content} {mode : Nat} {mtime : Int}
    (hlocate : fs.locate p = .ok id) (hnode : fs.node? id = some ⟨.file content, mode, mtime⟩) :
    fs.bytesAt p = .ok content.bytes := by
  have hkind : fs.kind? id = some (.file content) := kind?_eq_some_iff.2 ⟨_, hnode, rfl⟩
  unfold bytesAt openRead readAll
  rw [hlocate]
  simp only [bind, Except.bind, hkind]

end FileSystem
end ArtifactCourier
