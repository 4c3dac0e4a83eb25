/-
  ArtifactCourier.Proofs.Store.Handover
  ──────────────────────────────────────
  **Files that are handed to a receiver.**

  Seen from a walk, a receiver is a function: it is handed a key and a file and answers yes or
  no.  The record keeps what was handed over, so a law about uploads is a law about the list
  of handovers.

    • `perform_upload` — one upload: it hands over what the path leads to, and the answer is
      the receiver's,
    • `Receiver.Takes` — a receiver takes some files, one after the other,
    • `takes_shelving_iff` — the shelf behind a receiver holds exactly what was taken.
-/
import ArtifactCourier.Proofs.Perform
import ArtifactCourier.Store.Receiver

namespace ArtifactCourier

open Store

variable {σ τ : Type}

/-! ## §1. The record of handovers. -/

/-- The file that an event handed over, if it did. -/
def Event.handover? : Event → Option Stored
  | .handedOver key file content => some ⟨key, file, content⟩
  | _ => none

namespace Session

/-- The files that were handed over so far, in order. -/
def handovers (s : Session σ) : List Stored := s.events.toList.filterMap Event.handover?

/-- Two sessions that agree in all but the state of the store. -/
structure Twin (s : Session σ) (t : Session τ) : Prop where
  disk : s.disk = t.disk
  events : s.events = t.events
  report : s.report = t.report
  suffix : s.suffix = t.suffix

/-- The same session in front of another store. -/
def withStore (s : Session σ) (store : τ) : Session τ :=
  ⟨s.disk, store, s.events, s.report, s.suffix⟩

theorem twin_withStore (s : Session σ) (store : τ) : s.Twin (s.withStore store) :=
  ⟨rfl, rfl, rfl, rfl⟩

theorem Twin.handovers {s : Session σ} {t : Session τ} (h : s.Twin t) :
    s.handovers = t.handovers := by
  unfold Session.handovers
  rw [h.events]

/-- Twins stay twins when the same events are recorded in both. -/
theorem Twin.recorded {s : Session σ} {t : Session τ} (h : s.Twin t) (e : Event) :
    Twin { s with events := s.events.push e } { t with events := t.events.push e } where
  disk := h.disk
  events := congrArg (·.push e) h.events
  report := h.report
  suffix := h.suffix

/-- One event more is at most one handover more. -/
theorem handovers_of_push {s : Session σ} {t : Session τ} {e : Event}
    (h : t.events = s.events.push e) : t.handovers = s.handovers ++ e.handover?.toList := by
  unfold handovers
  rw [h, Array.toList_push, List.filterMap_append]
  cases he : e.handover? <;> simp [he]

theorem handovers_of_handedOver {s : Session σ} {t : Session τ} {key : String} {file : Path}
    {content : ByteArray} (h : t.events = s.events.push (.handedOver key file content)) :
    t.handovers = s.handovers ++ [⟨key, file, content⟩] :=
  handovers_of_push h

theorem handovers_of_log {s : Session σ} {t : Session τ} {line : Log.Line}
    (h : t.events = s.events.push (.log line)) : t.handovers = s.handovers := by
  rw [handovers_of_push h]
  exact List.append_nil _

end Session

/-! ## §2. Receivers. -/

/-- The shelf after some objects were put on it, one after the other. -/
def Store.Shelf.putAll (shelf : Shelf) (os : List Stored) : Shelf :=
  os.foldl Shelf.put shelf

namespace Store.Receiver

/-- The receiver touches no file of the disk. -/
def LeavesDisk (r : Receiver σ) : Prop := ∀ key disk, r.meanwhile key disk = disk

/-- The receiver that takes everything. -/
def acceptAll : Receiver Unit where
  receive _ _ _ _ := (.ok (), ())
  meanwhile _ disk := disk

theorem acceptAll_leavesDisk : acceptAll.LeavesDisk := fun _ _ => rfl

/-- The answer to a file that is handed over, and the state after it. -/
def answer (r : Receiver σ) (o : Stored) (state : σ) : Except Failure Unit × σ :=
  r.receive o.key o.file o.content state

/-- A receiver takes some files, one after the other. -/
inductive Takes (r : Receiver σ) : σ → List Stored → σ → Prop where
  | nil {state : σ} : Takes r state [] state
  | cons {state mid last : σ} {o : Stored} {rest : List Stored} :
      r.answer o state = (.ok (), mid) → Takes r mid rest last → Takes r state (o :: rest) last

theorem takes_singleton {r : Receiver σ} {state last : σ} {o : Stored}
    (h : r.answer o state = (.ok (), last)) : r.Takes state [o] last :=
  .cons h .nil

theorem Takes.append {r : Receiver σ} {state mid last : σ} {first second : List Stored}
    (h₁ : r.Takes state first mid) (h₂ : r.Takes mid second last) :
    r.Takes state (first ++ second) last := by
  induction h₁ with
  | nil => exact h₂
  | cons hanswer _ ih => exact .cons hanswer (ih h₂)

/-- **One upload to a receiver.**  A file that cannot be read is not handed over; any other is,
and the outcome is what the receiver answers. -/
theorem perform_upload {r : Receiver σ} (undisturbed : r.LeavesDisk) (file : Path) (key : String)
    (s : Session σ) :
    (r.toObjectStore.upload file key).perform s =
      match s.disk.bytesAt file with
      | .error e => (.error (.ofFile e), s)
      | .ok content =>
        ((r.answer ⟨key, file, content⟩ s.store).1, { s with
          events := s.events.push (.handedOver key file content)
          store := (r.answer ⟨key, file, content⟩ s.store).2 }) := by
  obtain ⟨receive, meanwhile⟩ := r
  have still : ∀ key disk, meanwhile key disk = disk := undisturbed
  simp only [toObjectStore, answer]
  rw [Work.perform_bind, Work.perform_get]
  dsimp only
  cases s.disk.bytesAt file with
  | error e => rfl
  | ok content =>
    dsimp only
    rw [Work.perform_bind, Work.perform_emit]
    dsimp only
    rw [Work.perform_bind, Work.perform_step]
    dsimp only
    rw [still]
    rcases receive key file content s.store with ⟨f | _, state⟩ <;> rfl

/-! ## §3. The shelf behind a receiver. -/

/-- The receiver that decides as `r` does and puts what it takes on a shelf. -/
def shelving (r : Receiver σ) : Receiver (σ × Shelf) where
  receive key file content state :=
    match r.receive key file content state.1 with
    | (.ok (), next) => (.ok (), (next, state.2.put ⟨key, file, content⟩))
    | (.error f, next) => (.error f, (next, state.2))
  meanwhile := r.meanwhile

theorem answer_shelving_ok {r : Receiver σ} {o : Stored} {state : σ × Shelf} {next : σ × Shelf} :
    r.shelving.answer o state = (.ok (), next) ↔
      r.answer o state.1 = (.ok (), next.1) ∧ next.2 = state.2.put o := by
  unfold answer shelving
  dsimp only
  rcases r.receive o.key o.file o.content state.1 with ⟨f | _, mid⟩
  · simp
  · simp [Prod.ext_iff, eq_comm]

theorem answer_shelving_error {r : Receiver σ} {o : Stored} {state next : σ × Shelf} {f : Failure} :
    r.shelving.answer o state = (.error f, next) ↔
      r.answer o state.1 = (.error f, next.1) ∧ next.2 = state.2 := by
  unfold answer shelving
  dsimp only
  rcases r.receive o.key o.file o.content state.1 with ⟨g | _, mid⟩
  · simp [Prod.ext_iff, eq_comm, and_assoc]
  · simp

/-- **The shelf holds exactly what was taken**, on top of what it held before. -/
theorem takes_shelving_iff {r : Receiver σ} {os : List Stored} {state last : σ × Shelf} :
    r.shelving.Takes state os last ↔
      r.Takes state.1 os last.1 ∧ last.2 = state.2.putAll os := by
  constructor
  · intro h
    induction h with
    | nil => exact ⟨.nil, rfl⟩
    | cons hanswer _ ih =>
      obtain ⟨htaken, hshelf⟩ := answer_shelving_ok.1 hanswer
      refine ⟨.cons htaken ih.1, ?_⟩
      rw [ih.2, hshelf]
      rfl
  · intro given
    obtain ⟨h, hshelf⟩ := given
    -- The shelves are told apart from the states, over which the induction goes.
    obtain ⟨start, shelf⟩ := state
    obtain ⟨last, full⟩ := last
    dsimp only at h hshelf
    induction h generalizing shelf with
    | nil =>
      rw [hshelf]
      exact .nil
    | cons hanswer _ ih =>
      exact .cons (answer_shelving_ok.2 ⟨hanswer, rfl⟩) (ih _ hshelf)

end Store.Receiver
end ArtifactCourier
