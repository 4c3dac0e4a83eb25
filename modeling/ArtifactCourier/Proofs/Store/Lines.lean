/-
  ArtifactCourier.Proofs.Store.Lines
  ──────────────────────────────────────
  **What a conversation logs.**

  The only line that a store writes by itself says that an upload could not be aborted.
  `Exchange.Logs p x` says that whatever is answered, `x` logs only lines with `p`; it is a
  predicate over the tree of the conversation.

    • `Logs.bind`, `logs_bind`, `logs_tryCatch` — one conversation after the other,
    • `logs_file` — an upload,
    • `Service.conduct_logs` — what a conversation adds to the record.
-/
import ArtifactCourier.Proofs.Store.Conduct

namespace ArtifactCourier.Store

variable {α β : Type} {p : Log.Line → Prop}

/-! ## §1. Conversations. -/

namespace Exchange

/-- **Whatever is answered**, only lines with `p` are logged. -/
def Logs (p : Log.Line → Prop) : Exchange α → Prop
  | .done _ => True
  | .size _ next => ∀ answer, (next answer).Logs p
  | .openFile _ next => ∀ answer, (next answer).Logs p
  | .readAll _ next => ∀ answer, (next answer).Logs p
  | .readAt _ _ _ next => ∀ answer, (next answer).Logs p
  | .send _ next => ∀ answer, (next answer).Logs p
  | .log line next => p line ∧ next.Logs p

theorem Logs.bind {x : Exchange α} {f : α → Exchange β} (h : x.Logs p) (hf : ∀ a, (f a).Logs p) :
    (x >>= f).Logs p := by
  change (x.bind f).Logs p
  induction x with
  | done a => exact hf a
  | log line next ih => exact ⟨h.1, ih h.2⟩
  | _ => rename_i ih; exact fun answer => ih answer (h answer)

end Exchange

/-- What is added to the record by a conversation that logs only lines with `p`. -/
theorem Service.conduct_logs {σ : Type} (service : Service σ) {x : Exchange α} (h : x.Logs p)
    (s : Session σ) :
    ∃ added : List Event, (service.conduct x s).2.events = s.events ++ added.toArray ∧
      ∀ e ∈ added, ∀ line, e = .log line → p line := by
  induction x generalizing s with
  | done a => exact ⟨[], by simp [conduct], fun _ he => absurd he List.not_mem_nil⟩
  | send r next ih =>
    obtain ⟨added, events, lines⟩ := ih _ (h _) { s with
      events := s.events.push (.request r)
      disk := service.meanwhile r s.store s.disk
      store := (service.answer r s.store).2 }
    refine ⟨.request r :: added, events.trans (by simp), ?_⟩
    rw [List.forall_mem_cons]
    exact ⟨nofun, lines⟩
  | log line next ih =>
    obtain ⟨added, events, lines⟩ := ih h.2 { s with events := s.events.push (.log line) }
    refine ⟨.log line :: added, events.trans (by simp), ?_⟩
    rw [List.forall_mem_cons]
    refine ⟨?_, lines⟩
    rintro _ ⟨⟩
    exact h.1
  | _ => rename_i ih; exact ih _ (h _) s

/-! ## §2. Uploads. -/

namespace Upload

/-- The same of a conversation that may fail. -/
def Logs (p : Log.Line → Prop) (x : Upload α) : Prop := x.run.Logs p

variable {x : Upload α} {f : α → Upload β}

theorem logs_pure (a : α) : Logs p (pure a) := trivial

theorem logs_throw (e : Failure) : Logs p (throw e : Upload α) := trivial

theorem logs_bind (h : Logs p x) (hf : ∀ a, Logs p (f a)) : Logs p (x >>= f) := by
  unfold Logs
  rw [ExceptT.run_bind]
  refine h.bind ?_
  rintro (e | a)
  · trivial
  · exact hf a

theorem logs_tryCatch {handler : Failure → Upload α} (h : Logs p x)
    (handled : ∀ e, Logs p (handler e)) : Logs p (tryCatch x handler) := by
  -- The handler is part of what follows the conversation.
  show (ExceptT.tryCatch x handler).run.Logs p
  rw [ExceptT.tryCatch, ExceptT.run_mk]
  refine h.bind ?_
  rintro (e | a)
  · exact handled e
  · trivial

theorem logs_sizeOf (file : Path) : Logs p (sizeOf file) := fun _ => trivial

theorem logs_openFile (file : Path) : Logs p (openFile file) := fun _ => trivial

theorem logs_readAll (id : NodeId) : Logs p (readAll id) := fun _ => trivial

theorem logs_readAt (id : NodeId) (offset length : Nat) : Logs p (readAt id offset length) :=
  fun _ => trivial

theorem logs_send (r : Request) : Logs p (send r) := fun _ => trivial

theorem logs_orFail (problem : Problem) (answer : Except FileError α) :
    Logs p (orFail problem answer) := by
  cases answer <;> trivial

variable (address : Address) (file : Path) (size : Nat)

theorem logs_small : Logs p (small address file size) := by
  unfold small
  refine logs_bind (logs_openFile file) fun answer => ?_
  refine logs_bind (logs_orFail _ answer) fun id => ?_
  refine logs_bind (logs_readAll id) fun content => ?_
  cases content with
  | error e => exact logs_throw _
  | ok body =>
    refine logs_bind (logs_send _) fun reply => ?_
    cases reply with
    | error e => exact logs_throw _
    | ok _ => exact logs_pure _

theorem logs_readPart (id : NodeId) (number : Nat) : Logs p (readPart file id size number) := by
  unfold readPart
  refine logs_bind (logs_readAt id _ _) fun answer => ?_
  refine logs_bind (logs_orFail _ answer) fun body => ?_
  split
  · exact logs_throw _
  · exact logs_pure _

theorem logs_sendPart (uploadId : String) (number : Nat) (body : ByteArray) :
    Logs p (sendPart address uploadId number body) := by
  unfold sendPart
  refine logs_bind (logs_send _) fun reply => ?_
  rcases reply with _ | _ | tag
  · exact logs_throw _
  · exact logs_throw _
  · exact logs_pure _

theorem logs_sendPartsFrom (uploadId : String) (id : NodeId) (number left : Nat) :
    Logs p (sendPartsFrom address uploadId file id size number left) := by
  induction left generalizing number with
  | zero => exact logs_pure _
  | succ left ih =>
    unfold sendPartsFrom
    refine logs_bind (logs_readPart file size id number) fun body => ?_
    refine logs_bind (logs_sendPart address uploadId number body) fun stored => ?_
    exact logs_bind (ih (number + 1)) fun rest => logs_pure _

theorem logs_sendParts (uploadId : String) : Logs p (sendParts address uploadId file size) := by
  unfold sendParts
  refine logs_bind (logs_openFile file) fun answer => ?_
  refine logs_bind (logs_orFail _ answer) fun id => ?_
  exact logs_sendPartsFrom address file size uploadId id 1 _

theorem logs_complete (uploadId : String) (parts : List StoredPart) :
    Logs p (complete address uploadId parts) := by
  unfold complete
  refine logs_bind (logs_send _) fun reply => ?_
  cases reply with
  | error e => exact logs_throw _
  | ok _ => exact logs_pure _

theorem logs_create : Logs p (create address) := by
  unfold create
  refine logs_bind (logs_send _) fun reply => ?_
  rcases reply with _ | _ | uploadId
  · exact logs_throw _
  · exact logs_throw _
  · exact logs_pure _

/-- **Giving an upload up** is logged only if that fails. -/
theorem logs_abort (uploadId : String) (h : ∀ reason, p (.abortFailed address.key reason)) :
    Logs p (abort address uploadId) := by
  unfold abort
  refine logs_bind (logs_send _) fun reply => ?_
  cases reply with
  | error e => exact ⟨h e.text, trivial⟩
  | ok _ => exact logs_pure _

theorem logs_large (h : ∀ reason, p (.abortFailed address.key reason)) :
    Logs p (large address file size) := by
  unfold large
  refine logs_bind (logs_create address) fun uploadId => ?_
  refine logs_bind ?_ fun parts => logs_complete address uploadId parts
  refine logs_tryCatch (logs_sendParts address file size uploadId) fun e => ?_
  exact logs_bind (logs_abort address uploadId h) fun _ => logs_throw _

/-- **An upload** logs nothing but that it could not be aborted. -/
theorem logs_file (h : ∀ reason, p (.abortFailed address.key reason)) :
    Logs p (Upload.file address file) := by
  unfold Upload.file
  refine logs_bind (logs_sizeOf file) fun answer => ?_
  refine logs_bind (logs_orFail _ answer) fun size => ?_
  split
  · exact logs_large address file size h
  · exact logs_small address file size

end Upload
end ArtifactCourier.Store
