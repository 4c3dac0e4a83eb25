/-
  ArtifactCourier.Proofs.Walk.Steps
  ──────────────────────────────────────
  **The steps of a walk, one at a time.**

  What a file's publication consists of, and what making and removing a scratch directory
  does to a session.

    • `publish_eq` — a publication is a warning, the compressed forms and the plain upload,
      each of them only if it is asked for,
    • `perform_create_eq_ok`, `perform_close_eq_ok` — the life of a scratch directory,
    • `forM_items` — what a listing gives is its names and then its end.
-/
import ArtifactCourier.Proofs.Store.Handover
import ArtifactCourier.Walk

namespace ArtifactCourier.Walk

open Store

variable {σ : Type}

/-! ## §1. Publication. -/

/-- Does something only if it is asked for. -/
def onlyIf (asked : Bool) (w : Work σ Unit) : Work σ Unit := if asked then w else pure ()

/-- A publication, step by step. -/
theorem publish_eq (config : Config) (store : ObjectStore σ) (file : Path) (name : String)
    (c : Classification) :
    publish config store file name c = (do
      onlyIf (c.tar && c.plain) (Work.log (.matchesBoth name))
      onlyIf c.tar (publishTar config store file name)
      onlyIf c.plain (publishPlain config store file name)) := by
  rcases c with ⟨_ | _, _ | _⟩ <;> rfl

/-! ## §2. Scratch directories. -/

/-- A scratch directory was made where it was to be made. -/
theorem perform_create_eq_ok {config : Config} {s s' : Session σ} {scratch : Path} :
    (Scratch.create config).perform s = (.ok scratch, s') ↔
      scratch = Scratch.place config s.disk s.suffix ∧ ∃ disk,
        s.disk.makeNode scratch (fun parent => ⟨.directory [] parent, Scratch.mode, 0⟩) = .ok disk ∧
          s' = { s with disk := disk } := by
  unfold Scratch.create
  rw [Work.perform_bind, Work.perform_get]
  dsimp only
  rw [Work.perform_bind, Work.perform_onDisk, Disk.perform_bind, Disk.perform_get]
  dsimp only
  cases hmake : s.disk.makeNode (Scratch.place config s.disk s.suffix)
      (fun parent => ⟨.directory [] parent, Scratch.mode, 0⟩) with
  | error e =>
    constructor
    · intro h
      cases h
    · intro given
      obtain ⟨rfl, disk, hmade, -⟩ := given
      rw [hmake] at hmade
      cases hmade
  | ok disk =>
    constructor
    · intro h
      cases h
      exact ⟨rfl, disk, hmake, rfl⟩
    · intro given
      obtain ⟨rfl, disk', hmade, rfl⟩ := given
      rw [hmake] at hmade
      cases hmade
      rfl

/-- A scratch directory was taken away. -/
theorem perform_close_eq_ok {s s' : Session σ} {scratch : Path} :
    (Scratch.close scratch).perform s = (.ok (), s') ↔
      ∃ disk, s.disk.removeTree scratch = .ok disk ∧ s' = { s with disk := disk } := by
  unfold Scratch.close
  rw [Work.perform_onDisk, Disk.perform_bind, Disk.perform_get]
  dsimp only
  cases s.disk.removeTree scratch with
  | error e => simp
  | ok disk => simp [eq_comm]

/-! ## §3. Listings. -/

/-- Asks for a name where a listing has none left: there is nothing, or the error that ends it. -/
def readEnd (dir : Path) (ending : Except FileError Unit) : Work σ Unit :=
  Work.onDisk (Disk.look (.readEntry dir) fun _ => ending)

theorem perform_readEnd (dir : Path) (ending : Except FileError Unit) (s : Session σ) :
    (readEnd dir ending).perform s =
      (ending.mapError fun e => (Failure.ofFile e).within (.readEntry dir), s) := by
  rcases ending with e | _ <;> rfl

/-- There was nothing more. -/
theorem perform_readEnd_eq_ok {dir : Path} {ending : Except FileError Unit} {s s' : Session σ} :
    (readEnd dir ending).perform s = (.ok (), s') ↔ ending = .ok () ∧ s' = s := by
  rw [perform_readEnd]
  rcases ending with e | _
  · constructor
    · intro h
      cases h
    · intro h
      cases h.1
  · constructor
    · intro h
      cases h
      exact ⟨rfl, rfl⟩
    · intro h
      rw [h.2]
      rfl

/-- **The names of a listing are taken, and then its end is read.** -/
theorem forM_items (config : Config) (store : ObjectStore σ) (dir : Path)
    (l : FileSystem.Listing) :
    l.items.forM (takeEntry config store dir) = (do
      l.names.forM (visit config store dir)
      readEnd dir l.ending) := by
  obtain ⟨names, ending⟩ := l
  unfold FileSystem.Listing.items
  dsimp only
  induction names with
  | nil => rcases ending with e | _ <;> rfl
  | cons name names ih =>
    rw [List.map_cons, List.cons_append, List.forM, ih, List.forM, bind_assoc]
    rfl

end ArtifactCourier.Walk
