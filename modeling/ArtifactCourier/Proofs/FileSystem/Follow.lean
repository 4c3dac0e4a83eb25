/-
  ArtifactCourier.Proofs.FileSystem.Follow
  ──────────────────────────────────────
  **Following a path, one segment at a time.**

  One equation for each thing that a segment of a path can be, and the law by which the way
  through a longer path is put together.

    • `follow_skip`, `follow_up`, `follow_absent`, `follow_link`, `follow_entry` — one segment,
    • `follow_append` — a path that leads to a directory, and what follows it there.
-/
import ArtifactCourier.FileSystem.Operations

namespace ArtifactCourier.FileSystem

variable {fs : FileSystem} {followLast : Bool} {links : Nat} {dir id : NodeId}
  {segment : List UInt8} {rest : List (List UInt8)}

/-- A sequence succeeds if and only if its first step does and then its second. -/
theorem bind_eq_ok {ε α β : Type} {x : Except ε α} {f : α → Except ε β} {b : β} :
    (x >>= f) = .ok b ↔ ∃ a, x = .ok a ∧ f a = .ok b := by
  cases x with
  | error e =>
    constructor
    · intro h
      cases h
    · intro given
      obtain ⟨_, h, -⟩ := given
      cases h
  | ok a =>
    constructor
    · intro h
      exact ⟨a, rfl, h⟩
    · intro given
      obtain ⟨_, ⟨rfl⟩, h⟩ := given
      exact h

/-! ## §1. One segment. -/

theorem isEntryName_iff {name : RawText} :
    isEntryName name = true ↔
      ¬ (name.bytes = [] ∨ name.bytes = [Path.dot]) ∧ ¬ name.bytes = [Path.dot, Path.dot] := by
  simp [isEntryName, not_or]

theorem follow_nil : fs.follow followLast links dir [] = .ok (.found dir) := by
  rw [follow]

/-- Nothing can be found in what is no directory. -/
theorem follow_of_not_directory (h : fs.isDirectoryAt dir = false) :
    fs.follow followLast links dir (segment :: rest) = .error .notDirectory := by
  rw [follow, h]
  rfl

/-- An empty segment and a dot lead nowhere else. -/
theorem follow_skip (hdir : fs.isDirectoryAt dir = true)
    (h : segment = [] ∨ segment = [Path.dot]) :
    fs.follow followLast links dir (segment :: rest) = fs.follow followLast links dir rest := by
  rw [follow, hdir, if_neg (by decide), if_pos h]

/-- Two dots lead to the directory above. -/
theorem follow_up (hdir : fs.isDirectoryAt dir = true) :
    fs.follow followLast links dir ([Path.dot, Path.dot] :: rest)
      = fs.follow followLast links (fs.parentOf dir) rest := by
  rw [follow, hdir, if_neg (by decide), if_neg (by decide), if_pos rfl]

/-- A name that is too long is refused. -/
theorem follow_tooLong (hdir : fs.isDirectoryAt dir = true)
    (hname : isEntryName ⟨segment⟩ = true) (long : segment.length > maxNameLength) :
    fs.follow followLast links dir (segment :: rest) = .error .nameTooLong := by
  obtain ⟨hskip, hup⟩ := isEntryName_iff.1 hname
  rw [follow, hdir, if_neg (by decide), if_neg hskip, if_neg hup, if_pos long]

/-- A name that is free is found to be so at the end of a path only. -/
theorem follow_absent (hdir : fs.isDirectoryAt dir = true)
    (hname : isEntryName ⟨segment⟩ = true) (short : ¬ segment.length > maxNameLength)
    (hchild : fs.child? dir ⟨segment⟩ = none) :
    fs.follow followLast links dir (segment :: rest)
      = if onlySlashes rest then .ok (.absent dir ⟨segment⟩ (!rest.isEmpty))
        else .error .notFound := by
  obtain ⟨hskip, hup⟩ := isEntryName_iff.1 hname
  rw [follow, hdir, if_neg (by decide), if_neg hskip, if_neg hup, if_neg short, hchild]

/-- A symbolic link leads where its target leads. -/
theorem follow_link (hdir : fs.isDirectoryAt dir = true)
    (hname : isEntryName ⟨segment⟩ = true) (short : ¬ segment.length > maxNameLength)
    (hchild : fs.child? dir ⟨segment⟩ = some id) {target : Path}
    (hlink : fs.linkTarget? id = some target) :
    fs.follow followLast links dir (segment :: rest)
      = if rest.isEmpty && !followLast then .ok (.found id)
        else
          match links with
          | 0 => .error .linkLoop
          | links + 1 =>
            fs.follow followLast links (if target.isAbsolute then root else dir)
              (Path.segmentsOf target.bytes ++ rest) := by
  obtain ⟨hskip, hup⟩ := isEntryName_iff.1 hname
  rw [follow, hdir, if_neg (by decide), if_neg hskip, if_neg hup, if_neg short, hchild]
  dsimp only
  generalize fs.linkTarget? id = found at hlink ⊢
  subst hlink
  rfl

/-- Any other entry leads to its node, which has to be a directory unless the path ends there. -/
theorem follow_entry (hdir : fs.isDirectoryAt dir = true)
    (hname : isEntryName ⟨segment⟩ = true) (short : ¬ segment.length > maxNameLength)
    (hchild : fs.child? dir ⟨segment⟩ = some id) (hlink : fs.linkTarget? id = none) :
    fs.follow followLast links dir (segment :: rest)
      = if rest.isEmpty || fs.isDirectoryAt id then fs.follow followLast links id rest
        else .error .notDirectory := by
  obtain ⟨hskip, hup⟩ := isEntryName_iff.1 hname
  rw [follow, hdir, if_neg (by decide), if_neg hskip, if_neg hup, if_neg short, hchild]
  dsimp only
  rw [hlink]

/-- A directory is no symbolic link. -/
theorem linkTarget?_of_isDirectoryAt (h : fs.isDirectoryAt id = true) :
    fs.linkTarget? id = none := by
  unfold isDirectoryAt at h
  unfold linkTarget? kind?
  cases hn : fs.node? id with
  | none => rfl
  | some n =>
    rw [hn] at h
    rcases n with ⟨kind, mode, mtime⟩
    cases kind <;> first | rfl | cases h

/-- An entry that is a directory is entered. -/
theorem follow_directory (hdir : fs.isDirectoryAt dir = true)
    (hname : isEntryName ⟨segment⟩ = true) (short : ¬ segment.length > maxNameLength)
    (hchild : fs.child? dir ⟨segment⟩ = some id) (hid : fs.isDirectoryAt id = true) :
    fs.follow followLast links dir (segment :: rest) = fs.follow followLast links id rest := by
  rw [follow_entry hdir hname short hchild (linkTarget?_of_isDirectoryAt hid), hid, Bool.or_true,
    if_pos rfl]

/-- Slashes at the end of a path to a directory lead nowhere else. -/
theorem follow_slashes (hdir : fs.isDirectoryAt dir = true) {empties : List (List UInt8)}
    (h : ∀ e ∈ empties, e = []) :
    fs.follow followLast links dir (empties ++ rest) = fs.follow followLast links dir rest := by
  induction empties with
  | nil => rfl
  | cons e empties ih =>
    rw [List.cons_append, follow_skip hdir (.inl (h e List.mem_cons_self))]
    exact ih fun e he => h e (List.mem_cons_of_mem _ he)

/-! ## §2. Longer paths. -/

/-- **A path that leads to a directory, and what follows it there.**  Where the rest leads to
may depend on how many symbolic links may still be followed, and on nothing else. -/
theorem follow_append {before : List (List UInt8)} {target : NodeId}
    (h : fs.follow true links dir before = .ok (.found target))
    (htarget : fs.isDirectoryAt target = true) (hrest : rest ≠ [])
    {result : Except FileError Resolved}
    (there : ∀ links, fs.follow followLast links target rest = result) :
    fs.follow followLast links dir (before ++ rest) = result := by
  fun_induction FileSystem.follow fs true links dir before with
  | case1 links dir =>
    cases h
    exact there links
  | case2 => cases h
  | case3 links dir segment before hdir hskip ih =>
    rw [List.cons_append, follow_skip (by simpa using hdir) hskip]
    exact ih h
  | case4 links dir before hdir _ ih =>
    rw [List.cons_append, follow_up (by simpa using hdir)]
    exact ih h
  | case5 => cases h
  | case6 => cases h
  | case7 => cases h
  | case8 _ _ _ before _ _ _ _ _ _ _ _ hlast => simp at hlast
  | case9 => cases h
  | case10 dir segment before hdir hskip hup short id hchild link hlink _ links ih =>
    -- A link is followed even at the end of `before`, because something comes behind it.
    have more : ((before ++ rest).isEmpty && !followLast) = false := by
      cases before <;> cases rest <;> simp_all
    rw [List.cons_append, follow_link (by simpa using hdir) (isEntryName_iff.2 ⟨hskip, hup⟩) short
      hchild hlink, more, if_neg (by decide), ← List.append_assoc]
    simp only [dite_eq_ite] at ih
    exact ih h
  | case11 links dir segment before hdir hskip hup short id hchild hlink hmore ih =>
    -- The last entry of the way is the target, which is a directory; all others are passed.
    have hid : fs.isDirectoryAt id = true := by
      cases before with
      | nil =>
        rw [follow_nil] at h
        cases h
        exact htarget
      | cons => simpa using hmore
    rw [List.cons_append, follow_directory (by simpa using hdir) (isEntryName_iff.2 ⟨hskip, hup⟩)
      short hchild hid]
    exact ih h
  | case12 => cases h

end ArtifactCourier.FileSystem
