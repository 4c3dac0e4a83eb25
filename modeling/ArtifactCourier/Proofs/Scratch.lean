/-
  ArtifactCourier.Proofs.Scratch
  ──────────────────────────────────────
  **Where scratch directories are made.**

  The names for a scratch directory are tried one after the other.  Which of them is taken in the
  end depends only on what was on the disk, so that it is the same whenever everything is kept.

    • `verdict` — whether something is granted, or why it is refused,
    • `verdict_makeNode_kept` — where everything is kept, a directory is granted as before,
    • `exists_draw_eq` — what is drawn is a name in the directory with some ending,
    • `draw_kept`, `place_kept` — where everything is kept, the same path is drawn.
-/
import ArtifactCourier.Proofs.FileSystem.ScratchDirectory
import ArtifactCourier.Scratch

namespace ArtifactCourier

namespace FileSystem

/-! ## §1. What is granted. -/

/-- **Whether something is granted**, or why it is refused. -/
def verdict {α : Type} (x : Except FileError α) : Except FileError Unit := x.map fun _ => ()

theorem verdict_eq_error {α : Type} {x : Except FileError α} {e : FileError} :
    verdict x = .error e ↔ x = .error e := by
  cases x <;> simp [verdict, Except.map]

theorem verdict_eq_ok {α : Type} {x : Except FileError α} :
    verdict x = .ok () ↔ ∃ a, x = .ok a := by
  cases x <;> simp [verdict, Except.map]

variable {fs fs' : FileSystem}

/-- **A node is granted as before.** -/
theorem verdict_makeNode_kept (sound : fs.Sound) (kept : fs.Kept fs') (p : Path)
    (n : NodeId → Node) : verdict (fs'.makeNode p n) = verdict (fs.makeNode p n) := by
  unfold makeNode
  rw [holder_kept sound kept]
  rcases hholder : fs.holder p with e | ⟨dir, name⟩
  · rfl
  dsimp only [bind, Except.bind]
  rw [kept.child? (isDirectoryAt_lt (holder_eq_ok.1 hholder).2.1)]
  -- The same guards are passed, and the last branch is a success on both disks.
  repeat' split
  all_goals rfl

end FileSystem

namespace Scratch

open FileSystem

/-! ## §2. What is drawn. -/

section draw

variable (dir : Path) (suffix : List RawText → RawText)

/-- **What is drawn is a name in the directory**, with some ending. -/
theorem exists_draw_eq (disk : FileSystem) (more : Nat) (names : List RawText) :
    ∃ ending, draw disk dir suffix more names = dir.join (name ending) := by
  fun_induction draw disk dir suffix more names with
  | case1 _ _ _ _ ih => exact ih
  | case2 => exact ⟨_, rfl⟩

variable {fs fs' : FileSystem} (sound : fs.Sound) (kept : fs.Kept fs')

include sound kept

theorem isTaken_kept (path : Path) : isTaken fs' path = isTaken fs path := by
  have same := verdict_makeNode_kept sound kept path fun parent => ⟨.directory [] parent, mode, 0⟩
  unfold isTaken
  cases h : fs.makeNode path fun parent => ⟨.directory [] parent, mode, 0⟩ with
  | error e =>
    rw [h] at same
    rw [verdict_eq_error.1 same]
  | ok made =>
    rw [h] at same
    obtain ⟨made', h'⟩ := verdict_eq_ok.1 same
    rw [h']

theorem draw_kept (more : Nat) (names : List RawText) :
    draw fs' dir suffix more names = draw fs dir suffix more names := by
  induction more generalizing names with
  | zero =>
    unfold draw
    dsimp only
    rw [isTaken_kept sound kept]
    cases isTaken fs (dir.join (name (suffix names))) <;> rfl
  | succ more ih =>
    unfold draw
    dsimp only
    rw [isTaken_kept sound kept]
    cases isTaken fs (dir.join (name (suffix names))) with
    | true => exact ih _
    | false => rfl

end draw

/-! ## §3. The place. -/

variable {fs fs' : FileSystem}

theorem home_kept (kept : fs.Kept fs') (config : Config) : home config fs' = home config fs := by
  unfold home absolute
  rw [kept.workingPath, kept.tempPath]

/-- The names that are taken are the same. -/
theorem taken_kept (sound : fs.Sound) (kept : fs.Kept fs') (dir : Path) :
    taken fs' dir = taken fs dir := by
  unfold taken
  rw [locate_kept sound kept]
  cases h : fs.locate dir with
  | error e => rfl
  | ok id => exact congrArg (List.map (·.name)) (kept.entries (locate_lt sound h))

/-- **A scratch directory is made where it was made before**, once everything is as it was. -/
theorem place_kept (sound : fs.Sound) (kept : fs.Kept fs') (config : Config)
    (suffix : List RawText → RawText) : place config fs' suffix = place config fs suffix := by
  unfold place
  dsimp only
  rw [home_kept kept, taken_kept sound kept, draw_kept _ _ sound kept]

end Scratch

end ArtifactCourier
