/-
  ArtifactCourier.Proofs.Perform
  ──────────────────────────────────────
  **What an action does, step by step.**

  An action on the disk or on a session is performed by performing its steps in order, until
  one of them fails.  Each building block of an action gets one equation here, so that the
  laws about larger actions never look below `perform`.

    • `Work.perform_bind` — one action after the other,
    • `Work.perform_bind_eq_ok` — a sequence succeeds if and only if both of its steps do,
    • `Work.perform_onDisk` — an action on the disk leaves the rest of a session alone,
    • `Work.perform_forM_cons` — a loop goes on until one of its rounds fails.
-/
import ArtifactCourier.Scratch

namespace ArtifactCourier

/-! ## §1. Actions on the disk. -/

namespace Disk

variable {α β : Type}

@[simp] theorem perform_pure (a : α) (fs : FileSystem) :
    (pure a : Disk α).perform fs = (.ok a, fs) := rfl

@[simp] theorem perform_fail (f : Failure) (fs : FileSystem) :
    (Disk.fail f : Disk α).perform fs = (.error f, fs) := rfl

@[simp] theorem perform_get (fs : FileSystem) :
    (get : Disk FileSystem).perform fs = (.ok fs, fs) := rfl

@[simp] theorem perform_set (fs fs' : FileSystem) :
    (set fs' : Disk PUnit).perform fs = (.ok ⟨⟩, fs') := rfl

/-- One action after the other: a failure of the first is the failure of both. -/
theorem perform_bind (x : Disk α) (f : α → Disk β) (fs : FileSystem) :
    (x >>= f).perform fs =
      match x.perform fs with
      | (.ok a, fs') => (f a).perform fs'
      | (.error e, fs') => (.error e, fs') := by
  unfold Disk.perform
  rw [ExceptT.run_bind, StateT.run_bind]
  rcases (ExceptT.run x).run fs with ⟨e | a, fs'⟩ <;> rfl

/-- A sequence succeeds if and only if its first step does and then its second. -/
theorem perform_bind_eq_ok {x : Disk α} {f : α → Disk β} {fs fs'' : FileSystem} {b : β} :
    (x >>= f).perform fs = (.ok b, fs'') ↔
      ∃ a fs', x.perform fs = (.ok a, fs') ∧ (f a).perform fs' = (.ok b, fs'') := by
  rw [perform_bind]
  rcases x.perform fs with ⟨e | a, fs'⟩
  · simp
  · constructor
    · intro h
      exact ⟨a, fs', rfl, h⟩
    · intro given
      obtain ⟨_, _, ⟨rfl, rfl⟩, h⟩ := given
      exact h

/-- What is looked up is there, or the refusal is told as the cause of `p`. -/
theorem perform_look (p : Problem) (f : FileSystem → Except FileError α) (fs : FileSystem) :
    (Disk.look p f).perform fs =
      (match f fs with
        | .ok a => .ok a
        | .error e => .error ((Failure.ofFile e).within p), fs) := by
  unfold Disk.look
  rw [perform_bind, perform_get]
  dsimp only
  cases f fs <;> rfl

/-- What was looked up is there, and the disk is as it was. -/
theorem perform_look_eq_ok {p : Problem} {f : FileSystem → Except FileError α}
    {fs fs' : FileSystem} {a : α} :
    (Disk.look p f).perform fs = (.ok a, fs') ↔ f fs = .ok a ∧ fs' = fs := by
  rw [perform_look]
  rcases f fs with e | b
  · simp
  · simp [eq_comm]

/-- A change is made, or refused without a trace on the disk. -/
theorem perform_change (p : Problem) (f : FileSystem → Except FileError (α × FileSystem))
    (fs : FileSystem) :
    (Disk.change p f).perform fs =
      match f fs with
      | .ok (a, fs') => (.ok a, fs')
      | .error e => (.error ((Failure.ofFile e).within p), fs) := by
  unfold Disk.change
  rw [perform_bind, perform_get]
  dsimp only
  cases f fs <;> rfl

theorem perform_change_eq_ok {p : Problem}
    {f : FileSystem → Except FileError (α × FileSystem)} {fs fs' : FileSystem} {a : α} :
    (Disk.change p f).perform fs = (.ok a, fs') ↔ f fs = .ok (a, fs') := by
  rw [perform_change]
  rcases f fs with e | ⟨b, fs''⟩
  · simp
  · simp

end Disk

/-! ## §2. Actions on a session. -/

namespace Work

variable {σ α β : Type}

@[simp] theorem perform_pure (a : α) (s : Session σ) :
    (pure a : Work σ α).perform s = (.ok a, s) := rfl

@[simp] theorem perform_fail (f : Failure) (s : Session σ) :
    (Work.fail f : Work σ α).perform s = (.error f, s) := rfl

@[simp] theorem perform_throw (f : Failure) (s : Session σ) :
    (throw f : Work σ α).perform s = (.error f, s) := rfl

@[simp] theorem perform_get (s : Session σ) :
    (get : Work σ (Session σ)).perform s = (.ok s, s) := rfl

@[simp] theorem perform_modify (f : Session σ → Session σ) (s : Session σ) :
    (modify f : Work σ PUnit).perform s = (.ok ⟨⟩, f s) := rfl

@[simp] theorem perform_emit (e : Event) (s : Session σ) :
    (Work.emit e).perform s = (.ok (), { s with events := s.events.push e }) := rfl

@[simp] theorem perform_log (line : Log.Line) (s : Session σ) :
    (Work.log line).perform s = (.ok (), { s with events := s.events.push (.log line) }) := rfl

@[simp] theorem perform_count (f : Report → Report) (s : Session σ) :
    (Work.count f).perform s = (.ok (), { s with report := f s.report }) := rfl

@[simp] theorem perform_step (f : Session σ → α × Session σ) (s : Session σ) :
    (Work.step f).perform s = (.ok (f s).1, (f s).2) := rfl

/-- One action after the other: a failure of the first is the failure of both. -/
theorem perform_bind (w : Work σ α) (f : α → Work σ β) (s : Session σ) :
    (w >>= f).perform s =
      match w.perform s with
      | (.ok a, s') => (f a).perform s'
      | (.error e, s') => (.error e, s') := by
  unfold Work.perform
  rw [ExceptT.run_bind, StateT.run_bind]
  rcases (ExceptT.run w).run s with ⟨e | a, s'⟩ <;> rfl

/-- A sequence succeeds if and only if its first step does and then its second. -/
theorem perform_bind_eq_ok {w : Work σ α} {f : α → Work σ β} {s s'' : Session σ} {b : β} :
    (w >>= f).perform s = (.ok b, s'') ↔
      ∃ a s', w.perform s = (.ok a, s') ∧ (f a).perform s' = (.ok b, s'') := by
  rw [perform_bind]
  rcases w.perform s with ⟨e | a, s'⟩
  · simp
  · constructor
    · intro h
      exact ⟨a, s', rfl, h⟩
    · intro given
      obtain ⟨_, _, ⟨rfl, rfl⟩, h⟩ := given
      exact h

@[simp] theorem perform_forM_nil {ι : Type} (f : ι → Work σ PUnit) (s : Session σ) :
    (([] : List ι).forM f).perform s = (.ok ⟨⟩, s) := rfl

/-- A loop is its first round and then the others. -/
theorem perform_forM_cons {ι : Type} (a : ι) (as : List ι) (f : ι → Work σ PUnit)
    (s : Session σ) :
    ((a :: as).forM f).perform s =
      match (f a).perform s with
      | (.ok _, s') => (as.forM f).perform s'
      | (.error e, s') => (.error e, s') := by
  rw [List.forM, perform_bind]
  rcases (f a).perform s with ⟨e | u, s'⟩ <;> rfl

/-- Lines that are logged one after the other are recorded in this order. -/
theorem perform_forM_log (lines : List Log.Line) (s : Session σ) :
    (lines.forM Work.log).perform s =
      (.ok (), { s with events := s.events ++ (lines.map Event.log).toArray }) := by
  induction lines generalizing s with
  | nil => simp
  | cons line lines ih =>
    rw [perform_forM_cons, perform_log]
    dsimp only
    rw [ih]
    simp

/-- An action on the disk changes nothing but the disk. -/
theorem perform_onDisk (action : Disk α) (s : Session σ) :
    (Work.onDisk action).perform s =
      ((action.perform s.disk).1, { s with disk := (action.perform s.disk).2 }) := by
  unfold Work.onDisk
  rw [perform_bind, perform_get]
  dsimp only
  rcases action.perform s.disk with ⟨e | a, fs⟩ <;> rfl

/-- A failure is passed on after the cleaning up. -/
theorem perform_orElseCleanUp (w : Work σ α) (cleanUp : Work σ Unit) (s : Session σ) :
    (Work.orElseCleanUp w cleanUp).perform s =
      match w.perform s with
      | (.ok a, s') => (.ok a, s')
      | (.error f, s') =>
        match cleanUp.perform s' with
        | (.ok (), s'') => (.error f, s'')
        | (.error g, s'') => (.error g, s'') := by
  -- What is done after a failure is a sequence: the cleaning up, and then the failure.
  have handled : (Work.orElseCleanUp w cleanUp).perform s =
      match w.perform s with
      | (.ok a, s') => (.ok a, s')
      | (.error f, s') => (cleanUp >>= fun _ => (throw f : Work σ α)).perform s' := by
    show StateT.run (ExceptT.run (ExceptT.tryCatch w _)) s
      = match StateT.run (ExceptT.run w) s with
        | (.ok a, s') => (.ok a, s')
        | (.error f, s') => (cleanUp >>= fun _ => (throw f : Work σ α)).perform s'
    rw [ExceptT.tryCatch, ExceptT.run_mk, StateT.run_bind]
    show ((StateT.run (ExceptT.run w) s) >>= _ : Id _) = _
    rcases StateT.run (ExceptT.run w) s with ⟨f | a, s'⟩ <;> rfl
  rw [handled]
  rcases w.perform s with ⟨f | a, s'⟩
  · dsimp only
    rw [perform_bind]
    rcases cleanUp.perform s' with ⟨g | a, s''⟩ <;> rfl
  · rfl

theorem perform_orElseCleanUp_eq_ok {w : Work σ α} {cleanUp : Work σ Unit} {s s' : Session σ}
    {a : α} :
    (Work.orElseCleanUp w cleanUp).perform s = (.ok a, s') ↔ w.perform s = (.ok a, s') := by
  rw [perform_orElseCleanUp]
  rcases w.perform s with ⟨f | b, mid⟩
  · dsimp only
    rcases cleanUp.perform mid with ⟨g | _, last⟩ <;> simp
  · exact Iff.rfl

/-- An outcome is reached if and only if it is the first part of what is performed. -/
theorem exists_session_iff {w : Work σ α} {s : Session σ} {r : Except Failure α} :
    (∃ s', w.perform s = (r, s')) ↔ (w.perform s).1 = r :=
  ⟨fun ⟨_, h⟩ => congrArg Prod.fst h, fun h => ⟨_, Prod.ext h rfl⟩⟩

end Work
end ArtifactCourier
