/-
  ArtifactCourier.Proofs.FileSystem.Created
  ──────────────────────────────────────
  **What a new file makes appear.**

  A path that led nowhere leads nowhere after a file was made, unless it is a path of that
  file: one that ended at the very name that was free.  And a file that is written anew is
  as it was only if it held what is written.

    • `follow_create_found` — a path finds what it found, or the new file at its own name,
    • `stat_openWrite_of_missing` — what was missing is there once a file is open for writing
      only if the two paths lead to one place,
    • `writeFile_eq_self_iff` — when writing a file changes nothing,
    • `opened_of_not_canWriteFile` — what is opened for writing and can hold nothing is as it was.
-/
import ArtifactCourier.Proofs.FileSystem.Apart
import ArtifactCourier.Proofs.Path

namespace ArtifactCourier.FileSystem

variable {fs opened : FileSystem} {p source dest : Path} {id dir : NodeId} {name : RawText}
  {n : Node} {content : Content}

/-! ## §1. A name more. -/

theorem isDirectoryAt_of_node? (h : fs.node? id = some n) :
    fs.isDirectoryAt id = n.isDirectory := by
  unfold isDirectoryAt
  rw [h]
  rfl

section create

variable (directory : fs.isDirectoryAt dir = true)

include directory

/-- All other names lead where they led. -/
theorem child?_create_of_ne {other : NodeId} {search : RawText} (old : other < fs.nodes.size)
    (apart : other = dir → search ≠ name) :
    (fs.create dir name n).2.child? other search = fs.child? other search := by
  have kept := (Kept.refl fs).addNode n
  have still : (fs.addNode n).2.isDirectoryAt dir = true := by
    rwa [kept.isDirectoryAt (isDirectoryAt_lt directory)]
  show ((fs.addNode n).2.link dir name fs.nodes.size).child? other search = _
  rw [child?_link_of_ne still apart, kept.child? old]

variable (free : fs.child? dir name = none)

include free

/-- A node that is no directory adds none. -/
theorem isDirectoryAt_create (file : n.isDirectory = false) (other : NodeId) :
    (fs.create dir name n).2.isDirectoryAt other = fs.isDirectoryAt other := by
  obtain ⟨grows, -, new⟩ := grows_create directory free n
  cases there : fs.isDirectoryAt other with
  | true => exact grows.directory other there
  | false =>
    have size : (fs.create dir name n).2.nodes.size = fs.nodes.size + 1 := size_create directory n
    rcases Nat.lt_trichotomy other fs.nodes.size with old | rfl | later
    · unfold isDirectoryAt at there ⊢
      rw [grows.node other old there]
      exact there
    · rw [isDirectoryAt_of_node? new]
      exact file
    · -- There is no node behind the new one.
      have none : (fs.create dir name n).2.node? other = none :=
        Array.getElem?_eq_none (by omega)
      unfold isDirectoryAt
      rw [none]
      rfl

/-- **A name that was free leads to the new file**, and only at the end of a path. -/
theorem follow_create_free (file : n.isDirectory = false) (noLink : n.isSymlink = false)
    {followLast : Bool} {links : Nat} {here : NodeId} {segment : List UInt8}
    {rest : List (List UInt8)} (there : fs.isDirectoryAt here = true)
    (isName : isEntryName ⟨segment⟩ = true) (short : ¬ segment.length > maxNameLength)
    (unused : fs.child? here ⟨segment⟩ = none)
    (found : (fs.create dir name n).2.follow followLast links here (segment :: rest)
      = .ok (.found id)) :
    here = dir ∧ RawText.mk segment = name ∧ rest = [] ∧ id = fs.nodes.size := by
  have old : here < fs.nodes.size := isDirectoryAt_lt there
  have still : (fs.create dir name n).2.isDirectoryAt here = true := by
    rwa [isDirectoryAt_create directory free file]
  by_cases own : here = dir ∧ RawText.mk segment = name
  · obtain ⟨rfl, rfl⟩ := own
    obtain ⟨-, entry, new⟩ := grows_create directory free n
    have plain : (fs.create here ⟨segment⟩ n).2.linkTarget? fs.nodes.size = none :=
      linkTarget?_of_node? new noLink
    have noDirectory : (fs.create here ⟨segment⟩ n).2.isDirectoryAt fs.nodes.size = false :=
      (isDirectoryAt_of_node? new).trans file
    rw [follow_entry still isName short entry plain, noDirectory, Bool.or_false] at found
    -- What goes on behind a file leads nowhere.
    by_cases last : rest.isEmpty = true
    · obtain rfl : rest = [] := List.isEmpty_iff.1 last
      rw [if_pos last, follow_nil] at found
      cases found
      exact ⟨rfl, rfl, rfl, rfl⟩
    · rw [if_neg last] at found
      cases found
  · have same : (fs.create dir name n).2.child? here ⟨segment⟩ = none := by
      rw [child?_create_of_ne directory old fun given same => own ⟨given, same⟩]
      exact unused
    rw [follow_absent still isName short same] at found
    split at found <;> cases found

/-- **A path finds what it found, or the new file** if it ended at the name that was free.  The
induction is on the way through the old disk, which never leaves the old nodes. -/
theorem follow_create_found (sound : fs.Sound) (file : n.isDirectory = false)
    (noLink : n.isSymlink = false) {followLast : Bool} {links : Nat} {start : NodeId}
    {segments : List (List UInt8)} (old : start < fs.nodes.size)
    (found : (fs.create dir name n).2.follow followLast links start segments = .ok (.found id)) :
    fs.follow followLast links start segments = .ok (.found id) ∨
      fs.follow followLast links start segments = .ok (.absent dir name false) ∧
        id = fs.nodes.size := by
  have grows := (grows_create directory free n).1
  have still : ∀ d, (fs.create dir name n).2.isDirectoryAt d = fs.isDirectoryAt d :=
    isDirectoryAt_create directory free file
  have sameLinks : ∀ d, (fs.create dir name n).2.linkTarget? d = fs.linkTarget? d :=
    linkTarget?_create directory free noLink
  -- Other entries than the new one are found where they were.
  have entry : ∀ d m child, fs.child? d m = some child →
      (fs.create dir name n).2.child? d m = some child := grows.child?
  fun_induction FileSystem.follow fs followLast links start segments with
  | case1 =>
    rw [follow_nil] at found
    exact .inl found
  | case2 _ here _ _ there =>
    rw [follow_of_not_directory (by rw [still]; simpa using there)] at found
    cases found
  | case3 _ here _ _ there skip ih =>
    rw [follow_skip (by rw [still]; simpa using there) skip] at found
    exact ih old found
  | case4 _ here _ there _ ih =>
    have directory : fs.isDirectoryAt here = true := by simpa using there
    rw [follow_up (by rw [still]; exact directory), grows.parentOf here directory] at found
    exact ih (sound.parentOf_lt old) found
  | case5 _ here _ _ there skip up long =>
    rw [follow_tooLong (by rw [still]; simpa using there) (isEntryName_iff.2 ⟨skip, up⟩) long]
      at found
    cases found
  -- The name was free: it is the new file's own, or it leads nowhere still.
  | case6 _ here segment rest there skip up short unused last =>
    obtain ⟨rfl, rfl, rfl, rfl⟩ := follow_create_free directory free file noLink
      (by simpa using there) (isEntryName_iff.2 ⟨skip, up⟩) short unused found
    exact .inr ⟨rfl, rfl⟩
  | case7 _ here segment rest there skip up short unused more =>
    obtain ⟨-, -, rfl, -⟩ := follow_create_free directory free file noLink
      (by simpa using there) (isEntryName_iff.2 ⟨skip, up⟩) short unused found
    exact absurd rfl more
  -- The name is that of a link, which leads where it led.
  | case8 _ here _ rest there skip up short child hchild _ hlink last =>
    rw [follow_link (by rw [still]; simpa using there) (isEntryName_iff.2 ⟨skip, up⟩) short
      (entry _ _ _ hchild) ((sameLinks _).trans hlink), if_pos last] at found
    exact .inl found
  | case9 here _ rest there skip up short child hchild _ hlink last =>
    rw [follow_link (by rw [still]; simpa using there) (isEntryName_iff.2 ⟨skip, up⟩) short
      (entry _ _ _ hchild) ((sameLinks _).trans hlink), if_neg last] at found
    cases found
  | case10 here _ rest there skip up short child hchild target hlink last links ih =>
    rw [follow_link (by rw [still]; simpa using there) (isEntryName_iff.2 ⟨skip, up⟩) short
      (entry _ _ _ hchild) ((sameLinks _).trans hlink), if_neg last] at found
    simp only [dite_eq_ite] at ih
    refine ih ?_ found
    split
    · exact sound.root_lt
    · exact old
  -- The name is that of another entry, which is passed through or is in the way as before.
  | case11 _ here _ rest there skip up short child hchild hlink more ih =>
    rw [follow_entry (by rw [still]; simpa using there) (isEntryName_iff.2 ⟨skip, up⟩) short
      (entry _ _ _ hchild) ((sameLinks _).trans hlink), still, if_pos more] at found
    exact ih (sound.child?_lt hchild) found
  | case12 _ here _ rest there skip up short child hchild hlink more =>
    rw [follow_entry (by rw [still]; simpa using there) (isEntryName_iff.2 ⟨skip, up⟩) short
      (entry _ _ _ hchild) ((sameLinks _).trans hlink), still, if_neg more] at found
    cases found

end create

/-! ## §2. What was missing. -/

/-- What is at a path depends on where it leads. -/
theorem stat_congr (same : fs.resolve source true = fs.resolve dest true) :
    fs.stat source = fs.stat dest := by
  unfold stat locate
  rw [same]

/-- A path that leads nowhere leads to no node. -/
theorem locate_of_missing (sound : fs.Sound) (missing : fs.doesExist p = false) (id : NodeId) :
    fs.locate p ≠ .ok id := by
  intro there
  have node : ∃ n, fs.node? id = some n := ⟨_, Array.getElem?_eq_getElem (locate_lt sound there)⟩
  obtain ⟨n, hnode⟩ := node
  have hstat : fs.stat p = .ok n := stat_eq_ok.2 ⟨id, there, hnode⟩
  unfold doesExist at missing
  rw [hstat] at missing
  cases missing

/-- Where a path leads nowhere, nothing can be told of it. -/
theorem stat_of_missing (missing : fs.doesExist p = false) : ∃ e, fs.stat p = .error e := by
  unfold doesExist at missing
  cases hstat : fs.stat p with
  | error e => exact ⟨e, rfl⟩
  | ok n =>
    rw [hstat] at missing
    cases missing

/-- Nor can it be read. -/
theorem openRead_of_missing (missing : fs.doesExist p = false) :
    ∃ e, fs.openRead p = .error e := by
  obtain ⟨e, hstat⟩ := stat_of_missing missing
  unfold stat at hstat
  unfold openRead
  cases hlocate : fs.locate p with
  | error e => exact ⟨e, rfl⟩
  | ok id =>
    rw [hlocate] at hstat
    -- There is no node of that number.
    have none : fs.node? id = none := by
      cases hnode : fs.node? id with
      | none => rfl
      | some n =>
        simp only [bind, Except.bind, hnode] at hstat
        cases hstat
    have noKind : fs.kind? id = Option.none := by
      unfold kind?
      rw [none]
      rfl
    simp only [bind, Except.bind, noKind]
    exact ⟨_, rfl⟩

/-- **What was missing is there once a file is open for writing** only if the two paths lead to one
place.  Then it is that file, which was made and is empty. -/
theorem stat_openWrite_of_missing (sound : fs.Sound) (missing : fs.doesExist source = false)
    (h : fs.openWrite dest = .ok (id, opened)) :
    opened.stat source = .ok n ↔
      fs.resolve source true = fs.resolve dest true ∧ n = Node.file .empty := by
  have nowhere := locate_of_missing sound missing
  obtain ⟨there, rfl⟩ | ⟨dir, name, absent, made⟩ := openWrite_cases h
  · -- A file that is there is not the one that is missing, and emptying it makes none appear.
    constructor
    · intro hstat
      obtain ⟨file, hlocate, -⟩ := stat_eq_ok.1 hstat
      rw [locate_setContent] at hlocate
      exact absurd hlocate (nowhere file)
    · rintro ⟨same, -⟩
      have found := same.trans (locate_eq_ok.1 there)
      exact absurd (locate_eq_ok.2 found) (nowhere id)
  · obtain rfl : opened = (fs.create dir name (Node.file .empty)).2 := congrArg Prod.snd made
    obtain ⟨directory, free⟩ := free_of_follow (resolve_eq_ok.1 absent).2
    obtain ⟨grows, -, new⟩ := grows_create directory free (Node.file .empty)
    constructor
    · intro hstat
      obtain ⟨file, hlocate, hnode⟩ := stat_eq_ok.1 hstat
      obtain ⟨path, found⟩ := resolve_eq_ok.1 (locate_eq_ok.1 hlocate)
      rw [grows.startOf] at found
      obtain before | ⟨ended, rfl⟩ :=
        follow_create_found directory free sound rfl rfl (sound.startOf_lt source) found
      · exact absurd (locate_eq_ok.2 (resolve_eq_ok.2 ⟨path, before⟩)) (nowhere file)
      · cases new.symm.trans hnode
        exact ⟨(resolve_eq_ok.2 ⟨path, ended⟩).trans absent.symm, rfl⟩
    · rintro ⟨same, rfl⟩
      have found := resolve_create (same.trans absent) (n := Node.file .empty) rfl
      exact stat_eq_ok.2 ⟨_, locate_eq_ok.2 found, new⟩

/-! ## §3. Writing what is there. -/

theorem setNode_self (h : fs.node? id = some n) : fs.setNode id n = fs := by
  obtain ⟨lt, rfl⟩ := Array.getElem?_eq_some_iff.1 h
  have same : fs.nodes.setIfInBounds id fs.nodes[id] = fs.nodes := by
    rw [Array.setIfInBounds_def, dif_pos lt, Array.set_getElem_self]
  unfold setNode
  rw [same]

theorem setNode_setNode (first second : Node) :
    (fs.setNode id first).setNode id second = fs.setNode id second := by
  unfold setNode
  rw [Array.setIfInBounds_setIfInBounds]

theorem size_setContent : (fs.setContent id content).nodes.size = fs.nodes.size := by
  unfold setContent
  split
  · exact size_setNode _
  · rfl

/-- **Writing a file changes nothing only if it held what is written.** -/
theorem writeFile_eq_self_iff (can : fs.CanWriteFile p) {data : ByteArray} :
    fs.writeFile p data = .ok fs ↔ ∃ n, fs.stat p = .ok n ∧ n.kind = .file (.ofBytes data) := by
  obtain ⟨id, opened, old, hopen, hkind⟩ := can
  rw [writeFile_of_file hopen hkind, Except.ok.injEq]
  obtain ⟨there, rfl⟩ | ⟨dir, name, absent, made⟩ := openWrite_cases hopen
  · -- A file that is there is emptied, and then holds what is written.
    obtain ⟨held, mode, mtime, hnode⟩ :
        ∃ held mode mtime, fs.node? id = some ⟨.file held, mode, mtime⟩ := by
      obtain ⟨⟨_, mode, mtime⟩, hnode, rfl⟩ := kind?_eq_some_iff.1 hkind
      obtain same | ⟨held, mode, mtime, before, -⟩ := @node?_setContent fs id .empty id
      · exact ⟨old, mode, mtime, same.symm.trans hnode⟩
      · exact ⟨held, mode, mtime, before⟩
    have lt := node?_lt hnode
    have emptied := @node?_setNode_self fs id ⟨.file .empty, mode, mtime⟩ lt
    rw [setContent_eq hnode, setContent_eq emptied, setNode_setNode]
    have now := @node?_setNode_self fs id ⟨.file (.ofBytes data), mode, mtime⟩ lt
    constructor
    · intro same
      rw [same] at now
      exact ⟨_, stat_eq_ok.2 ⟨id, there, now⟩, rfl⟩
    · rintro ⟨n, hstat, holds⟩
      obtain ⟨other, there', hnode'⟩ := stat_eq_ok.1 hstat
      cases there.symm.trans there'
      cases hnode.symm.trans hnode'
      obtain rfl : held = .ofBytes data := NodeKind.file.inj holds
      exact setNode_self hnode
  · -- A file that is made is one more than there were.
    obtain rfl : opened = (fs.create dir name (Node.file .empty)).2 := congrArg Prod.snd made
    obtain ⟨directory, -⟩ := free_of_follow (resolve_eq_ok.1 absent).2
    have more : ((fs.create dir name (Node.file .empty)).2.setContent id
        (.ofBytes data)).nodes.size = fs.nodes.size + 1 := by
      rw [size_setContent, size_create directory]
    constructor
    · intro same
      rw [same] at more
      omega
    · rintro ⟨n, hstat, -⟩
      obtain ⟨other, there, -⟩ := stat_eq_ok.1 hstat
      cases absent.symm.trans (locate_eq_ok.1 there)

/-! ## §4. Where a file can be. -/

/-- **What a slash follows is a directory.**  The induction is on the way; its last segment is
empty, and only a directory is left by an empty segment. -/
theorem isDirectoryAt_of_trailing {followLast : Bool} {links : Nat}
    {segments : List (List UInt8)} (trailing : segments.getLast? = some [])
    (found : fs.follow followLast links dir segments = .ok (.found id)) :
    fs.isDirectoryAt id = true := by
  -- A segment that is not empty is not the last one.
  have behind : ∀ {segment : List UInt8} {rest : List (List UInt8)}, segment ≠ [] →
      (segment :: rest).getLast? = some [] → rest.getLast? = some [] := by
    intro segment rest something last
    cases rest with
    | nil => exact absurd (by simpa using last) something
    | cons => rwa [List.getLast?_cons_cons] at last
  fun_induction FileSystem.follow fs followLast links dir segments with
  | case1 => cases trailing
  | case3 links here segment rest there skip ih =>
    cases rest with
    | nil =>
      rw [follow_nil] at found
      cases found
      simpa using there
    | cons => exact ih (by rwa [List.getLast?_cons_cons] at trailing) found
  | case4 _ _ _ _ _ ih => exact ih (behind (by simp) trailing) found
  | case8 _ _ segment rest _ skip _ _ _ _ _ _ last =>
    obtain rfl : rest = [] := List.isEmpty_iff.1 (Bool.and_eq_true_iff.1 last).1
    exact absurd (.inl (by simpa using trailing)) skip
  | case10 _ segment rest _ skip _ _ _ _ target _ _ _ ih =>
    refine ih ?_ (by simpa using found)
    rw [List.getLast?_append, behind (fun given => skip (.inl given)) trailing]
    rfl
  | case11 _ _ segment rest _ skip _ _ _ _ _ _ ih =>
    exact ih (behind (fun given => skip (.inl given)) trailing) found
  | _ => cases found

/-- **A regular file can be written anew.** -/
theorem canWriteFile_of_stat (hstat : fs.stat p = .ok n) (regular : n.isFile = true) :
    fs.CanWriteFile p := by
  obtain ⟨id, hlocate, hnode⟩ := stat_eq_ok.1 hstat
  obtain ⟨path, found⟩ := resolve_eq_ok.1 (locate_eq_ok.1 hlocate)
  obtain ⟨kind, mode, mtime⟩ := n
  cases kind with
  | file content =>
    have plain : p.endsWithSlash = false := by
      apply Bool.eq_false_iff.2
      intro slash
      obtain ⟨front, hfront⟩ : ∃ front, p.bytes = front ++ [Path.slash] :=
        List.getLast?_eq_some_iff.1 (by simpa [Path.endsWithSlash] using slash)
      have trailing : (Path.segmentsOf p.bytes).getLast? = some [] := by
        rw [hfront, Path.segmentsOf_append]
        simp [Path.segmentsOf]
      have directory := isDirectoryAt_of_trailing trailing found
      rw [isDirectoryAt_of_node? hnode] at directory
      cases directory
    have hkind : fs.kind? id = some (.file content) := kind?_eq_some_iff.2 ⟨_, hnode, rfl⟩
    refine ⟨id, fs.setContent id .empty, .empty, ?_, ?_⟩
    · unfold openWrite
      rw [if_neg (by simp [plain]), locate_eq_ok.1 hlocate]
      simp only [bind, Except.bind, hkind]
    · rw [setContent_eq hnode]
      exact kind?_eq_some_iff.2 ⟨_, node?_setNode_self _ (node?_lt hnode), rfl⟩
  | _ => cases regular

theorem setContent_of_noFile (noFile : ∀ held, fs.kind? id ≠ some (.file held))
    (content : Content) : fs.setContent id content = fs := by
  unfold setContent
  split
  · next held mode mtime hnode =>
    exact absurd (kind?_eq_some_iff.2 ⟨_, hnode, rfl⟩) (noFile held)
  · rfl

/-- **What can be opened for writing and is no regular file** keeps nothing of what is written. -/
theorem opened_of_not_canWriteFile (cannot : ¬ fs.CanWriteFile p)
    (h : fs.openWrite p = .ok (id, opened)) :
    opened = fs ∧ ∀ data, (fs.writeAll id data).toOption.getD fs = fs := by
  have noFile : ∀ held, opened.kind? id ≠ some (.file held) :=
    fun held given => cannot ⟨id, opened, held, h, given⟩
  obtain ⟨-, rfl⟩ | ⟨dir, name, absent, made⟩ := openWrite_cases h
  · have noFile' : ∀ held, fs.kind? id ≠ some (.file held) := by
      intro held given
      obtain ⟨⟨_, mode, mtime⟩, hnode, rfl⟩ := kind?_eq_some_iff.1 given
      rw [setContent_eq hnode] at noFile
      have emptied := @node?_setNode_self fs id ⟨.file .empty, mode, mtime⟩ (node?_lt hnode)
      exact noFile .empty (kind?_eq_some_iff.2 ⟨_, emptied, rfl⟩)
    refine ⟨setContent_of_noFile noFile' _, fun data => ?_⟩
    unfold writeAll
    split
    · split <;> rfl
    · exact setContent_of_noFile noFile' _
  · obtain ⟨rfl, rfl⟩ := Prod.mk.inj made
    obtain ⟨directory, free⟩ := free_of_follow (resolve_eq_ok.1 absent).2
    have new := (grows_create directory free (Node.file .empty)).2.2
    exact absurd (kind?_eq_some_iff.2 ⟨_, new, rfl⟩) (noFile .empty)

end ArtifactCourier.FileSystem
