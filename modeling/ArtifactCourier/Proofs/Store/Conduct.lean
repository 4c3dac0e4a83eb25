/-
  ArtifactCourier.Proofs.Store.Conduct
  ──────────────────────────────────────
  **A conversation with a service, as a function.**

  Carrying out a conversation cannot fail: failures are answers.  `Service.conduct` is the
  function behind it, and `Service.carry` the same for conversations that may end in a
  failure of their own.

    • `Service.perform_run` — carrying out is conducting,
    • `carry_bind`, `carry_tryCatch` — one conversation after the other,
    • `carry_send` — a request is recorded and answered by the service,
    • `perform_toObjectStore` — an upload is a recorded beginning and a conversation.
-/
import ArtifactCourier.Proofs.Perform
import ArtifactCourier.Store.Service

namespace ArtifactCourier.Store.Service

variable {σ α β : Type} (service : Service σ)

/-- What comes of a conversation, and the session after it. -/
def conduct : Exchange α → Session σ → α × Session σ
  | .done a, s => (a, s)
  | .size file next, s => conduct (next ((s.disk.stat file).map Node.size)) s
  | .openFile file next, s => conduct (next (s.disk.openRead file)) s
  | .readAll id next, s => conduct (next (s.disk.readAll id)) s
  | .readAt id offset length next, s => conduct (next (s.disk.readAt id offset length)) s
  | .send r next, s =>
    conduct (next (service.answer r s.store).1) { s with
      events := s.events.push (.request r)
      disk := service.meanwhile r s.store s.disk
      store := (service.answer r s.store).2 }
  | .log line next, s => conduct next { s with events := s.events.push (.log line) }

/-- **Carrying a conversation out** is conducting it. -/
theorem perform_run (x : Exchange α) (s : Session σ) :
    (service.run x).perform s = (.ok (service.conduct x s).1, (service.conduct x s).2) := by
  induction x generalizing s with
  | done a => rfl
  | size file next ih =>
    rw [run, Work.perform_bind, Work.perform_get]
    exact ih _ s
  | openFile file next ih =>
    rw [run, Work.perform_bind, Work.perform_get]
    exact ih _ s
  | readAll id next ih =>
    rw [run, Work.perform_bind, Work.perform_get]
    exact ih _ s
  | readAt id offset length next ih =>
    rw [run, Work.perform_bind, Work.perform_get]
    exact ih _ s
  | send r next ih =>
    rw [run, Work.perform_bind]
    unfold send
    rw [Work.perform_bind, Work.perform_emit]
    dsimp only
    rw [Work.perform_step]
    exact ih _ _
  | log line next ih =>
    rw [run, Work.perform_bind, Work.perform_log]
    exact ih _

theorem conduct_bind (x : Exchange α) (f : α → Exchange β) (s : Session σ) :
    service.conduct (x >>= f) s =
      service.conduct (f (service.conduct x s).1) (service.conduct x s).2 := by
  change service.conduct (x.bind f) s = _
  induction x generalizing s with
  | done a => rfl
  | size file next ih => exact ih _ s
  | openFile file next ih => exact ih _ s
  | readAll id next ih => exact ih _ s
  | readAt id offset length next ih => exact ih _ s
  | send r next ih => exact ih _ _
  | log line next ih => exact ih _

/-! ## §1. Conversations that may fail. -/

/-- What comes of a conversation that may fail. -/
def carry (x : Upload α) (s : Session σ) : Except Failure α × Session σ := service.conduct x.run s

@[simp] theorem carry_pure (a : α) (s : Session σ) :
    service.carry (pure a) s = (.ok a, s) := rfl

@[simp] theorem carry_throw (f : Failure) (s : Session σ) :
    service.carry (throw f : Upload α) s = (.error f, s) := rfl

/-- One conversation after the other: a failure of the first is the failure of both. -/
theorem carry_bind (x : Upload α) (f : α → Upload β) (s : Session σ) :
    service.carry (x >>= f) s =
      match service.carry x s with
      | (.ok a, s') => service.carry (f a) s'
      | (.error e, s') => (.error e, s') := by
  unfold carry
  rw [ExceptT.run_bind, conduct_bind]
  rcases service.conduct x.run s with ⟨e | a, s'⟩ <;> rfl

/-- A failure is handled where it happened. -/
theorem carry_tryCatch (x : Upload α) (handler : Failure → Upload α) (s : Session σ) :
    service.carry (tryCatch x handler) s =
      match service.carry x s with
      | (.ok a, s') => (.ok a, s')
      | (.error e, s') => service.carry (handler e) s' := by
  -- The handler is part of what follows the conversation.
  show service.conduct (ExceptT.tryCatch x handler).run s = _
  unfold carry
  rw [ExceptT.tryCatch, ExceptT.run_mk]
  show service.conduct (x.run >>= _) s = _
  rw [conduct_bind]
  rcases service.conduct x.run s with ⟨e | a, s'⟩ <;> rfl

@[simp] theorem carry_sizeOf (file : Path) (s : Session σ) :
    service.carry (Upload.sizeOf file) s = (.ok ((s.disk.stat file).map Node.size), s) := rfl

@[simp] theorem carry_openFile (file : Path) (s : Session σ) :
    service.carry (Upload.openFile file) s = (.ok (s.disk.openRead file), s) := rfl

@[simp] theorem carry_readAll (id : NodeId) (s : Session σ) :
    service.carry (Upload.readAll id) s = (.ok (s.disk.readAll id), s) := rfl

@[simp] theorem carry_readAt (id : NodeId) (offset length : Nat) (s : Session σ) :
    service.carry (Upload.readAt id offset length) s =
      (.ok (s.disk.readAt id offset length), s) := rfl

/-- **A request** is recorded and answered by the service. -/
@[simp] theorem carry_send (r : Request) (s : Session σ) :
    service.carry (Upload.send r) s =
      (.ok (service.answer r s.store).1, { s with
        events := s.events.push (.request r)
        disk := service.meanwhile r s.store s.disk
        store := (service.answer r s.store).2 }) := rfl

@[simp] theorem carry_log (line : Log.Line) (s : Session σ) :
    service.carry (Upload.log line) s = (.ok (), { s with events := s.events.push (.log line) }) :=
  rfl

theorem carry_orFail (p : Problem) (answer : Except FileError α) (s : Session σ) :
    service.carry (Upload.orFail p answer) s =
      (answer.mapError fun e => (Failure.ofFile e).within p, s) := by
  cases answer <;> rfl

/-- **An upload** is a recorded beginning and a conversation. -/
theorem perform_toObjectStore (bucket key : String) (file : Path) (s : Session σ) :
    ((service.toObjectStore bucket).upload file key).perform s =
      service.carry (Upload.file ⟨bucket, key⟩ file)
        { s with events := s.events.push (.uploading key file) } := by
  unfold toObjectStore
  rw [Work.perform_bind, Work.perform_emit]
  dsimp only
  rw [Work.perform_bind, perform_run]
  unfold carry
  dsimp only
  rcases service.conduct (Upload.file ⟨bucket, key⟩ file).run _ with ⟨e | _, s'⟩ <;> rfl

end ArtifactCourier.Store.Service
