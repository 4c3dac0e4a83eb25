/-
  ArtifactCourier.Proofs.Store.Dialogue
  ──────────────────────────────────────
  **The ways a conversation can go.**

  A conversation asks, and whatever it is answered it goes on.  `Goes` tells its questions
  with some answers to them and what it ends with; nothing is assumed of the answers, so a
  law about `Goes` holds whatever the disk and the service do, and whatever others do to the
  disk meanwhile.

    • `goes_bind`, `goes_tryCatch` — the ways of one conversation after the other,
    • `goes_conduct` — what comes of a conversation with a service is one of its ways,
    • `goes_sendParts` — the parts of a file are sent to one upload, and nothing else is sent,
    • `opened_upload_ends` — how an upload in parts can end once it was opened.
-/
import Mathlib
import ArtifactCourier.Proofs.Store.Conduct

namespace ArtifactCourier.Store

variable {α β : Type}

/-! ## §1. Turns. -/

/-- A question of a conversation, and the answer to it. -/
inductive Turn where
  | size (file : Path) (answer : Except FileError Nat)
  | openFile (file : Path) (answer : Except FileError NodeId)
  | readAll (id : NodeId) (answer : Except FileError ByteArray)
  | readAt (id : NodeId) (offset length : Nat) (answer : Except FileError ByteArray)
  | send (r : Request) (answer : Except ServiceError Reply)
  | log (line : Log.Line)

/-- The request that was sent, if one was. -/
def Turn.request? : Turn → Option Request
  | send r _ => some r
  | _ => none

/-- What the record says of a turn, if it says something. -/
def Turn.event? : Turn → Option Event
  | send r _ => some (.request r)
  | log line => some (.log line)
  | _ => none

namespace Exchange

/-- **A conversation can go this way**: with these turns it comes to this end. -/
inductive Goes : Exchange α → List Turn → α → Prop
  | done (a : α) : Goes (done a) [] a
  | size {file : Path} {next : Except FileError Nat → Exchange α} {turns : List Turn} {a : α}
      (answer : Except FileError Nat) :
      Goes (next answer) turns a → Goes (size file next) (.size file answer :: turns) a
  | openFile {file : Path} {next : Except FileError NodeId → Exchange α} {turns : List Turn}
      {a : α} (answer : Except FileError NodeId) :
      Goes (next answer) turns a → Goes (openFile file next) (.openFile file answer :: turns) a
  | readAll {id : NodeId} {next : Except FileError ByteArray → Exchange α} {turns : List Turn}
      {a : α} (answer : Except FileError ByteArray) :
      Goes (next answer) turns a → Goes (readAll id next) (.readAll id answer :: turns) a
  | readAt {id : NodeId} {offset length : Nat} {next : Except FileError ByteArray → Exchange α}
      {turns : List Turn} {a : α} (answer : Except FileError ByteArray) :
      Goes (next answer) turns a →
        Goes (readAt id offset length next) (.readAt id offset length answer :: turns) a
  | send {r : Request} {next : Except ServiceError Reply → Exchange α} {turns : List Turn} {a : α}
      (answer : Except ServiceError Reply) :
      Goes (next answer) turns a → Goes (send r next) (.send r answer :: turns) a
  | log {line : Log.Line} {next : Exchange α} {turns : List Turn} {a : α} :
      Goes next turns a → Goes (log line next) (.log line :: turns) a

/-- One conversation after the other takes the turns of the first, and then of the second. -/
theorem goes_bind {x : Exchange α} {f : α → Exchange β} {turns : List Turn} {b : β} :
    Goes (x >>= f) turns b ↔
      ∃ a first second, turns = first ++ second ∧ Goes x first a ∧ Goes (f a) second b := by
  change Goes (x.bind f) turns b ↔ _
  constructor
  · intro h
    induction x generalizing turns with
    | done a => exact ⟨a, [], turns, rfl, .done a, h⟩
    | log line next ih =>
      cases h with
      | log h =>
        obtain ⟨a, first, second, rfl, hx, hf⟩ := ih h
        exact ⟨a, _ :: first, second, rfl, .log hx, hf⟩
    | size file next ih =>
      cases h with
      | size answer h =>
        obtain ⟨a, first, second, rfl, hx, hf⟩ := ih answer h
        exact ⟨a, _ :: first, second, rfl, .size answer hx, hf⟩
    | openFile file next ih =>
      cases h with
      | openFile answer h =>
        obtain ⟨a, first, second, rfl, hx, hf⟩ := ih answer h
        exact ⟨a, _ :: first, second, rfl, .openFile answer hx, hf⟩
    | readAll id next ih =>
      cases h with
      | readAll answer h =>
        obtain ⟨a, first, second, rfl, hx, hf⟩ := ih answer h
        exact ⟨a, _ :: first, second, rfl, .readAll answer hx, hf⟩
    | readAt id offset length next ih =>
      cases h with
      | readAt answer h =>
        obtain ⟨a, first, second, rfl, hx, hf⟩ := ih answer h
        exact ⟨a, _ :: first, second, rfl, .readAt answer hx, hf⟩
    | send r next ih =>
      cases h with
      | send answer h =>
        obtain ⟨a, first, second, rfl, hx, hf⟩ := ih answer h
        exact ⟨a, _ :: first, second, rfl, .send answer hx, hf⟩
  · intro given
    obtain ⟨a, first, second, rfl, hx, hf⟩ := given
    induction hx with
    | done a => exact hf
    | size answer _ ih => exact .size answer (ih hf)
    | openFile answer _ ih => exact .openFile answer (ih hf)
    | readAll answer _ ih => exact .readAll answer (ih hf)
    | readAt answer _ ih => exact .readAt answer (ih hf)
    | send answer _ ih => exact .send answer (ih hf)
    | log _ ih => exact .log (ih hf)

/-- **What comes of a conversation with a service is one of its ways**, and the record grows by
what there is to say of its turns. -/
theorem goes_conduct {σ : Type} (service : Service σ) (x : Exchange α) (s : Session σ) :
    ∃ turns, Goes x turns (service.conduct x s).1 ∧
      (service.conduct x s).2.events = s.events ++ (turns.filterMap Turn.event?).toArray := by
  induction x generalizing s with
  | done a => exact ⟨[], .done a, by simp [Service.conduct]⟩
  | size file next ih =>
    obtain ⟨turns, goes, record⟩ := ih _ s
    exact ⟨_ :: turns, .size _ goes, record⟩
  | openFile file next ih =>
    obtain ⟨turns, goes, record⟩ := ih _ s
    exact ⟨_ :: turns, .openFile _ goes, record⟩
  | readAll id next ih =>
    obtain ⟨turns, goes, record⟩ := ih _ s
    exact ⟨_ :: turns, .readAll _ goes, record⟩
  | readAt id offset length next ih =>
    obtain ⟨turns, goes, record⟩ := ih _ s
    exact ⟨_ :: turns, .readAt _ goes, record⟩
  | send r next ih =>
    obtain ⟨turns, goes, record⟩ := ih _ _
    exact ⟨_ :: turns, .send _ goes, record.trans (by simp [Turn.event?])⟩
  | log line next ih =>
    obtain ⟨turns, goes, record⟩ := ih { s with events := s.events.push (.log line) }
    exact ⟨_ :: turns, .log goes, record.trans (by simp [Turn.event?])⟩

end Exchange

/-! ## §2. Conversations that may fail. -/

namespace Upload

/-- **A conversation that may fail can go this way.** -/
def Goes (x : Upload α) (turns : List Turn) (result : Except Failure α) : Prop :=
  Exchange.Goes x.run turns result

variable {turns : List Turn} {result : Except Failure α}

/-- **An upload by a service** goes one of the ways of its conversation. -/
theorem goes_toObjectStore {σ : Type} (service : Service σ) (bucket key : String) (path : Path)
    (s : Session σ) :
    ∃ turns, Goes (Upload.file ⟨bucket, key⟩ path) turns
        (((service.toObjectStore bucket).upload path key).perform s).1 ∧
      (((service.toObjectStore bucket).upload path key).perform s).2.events =
        s.events.push (.uploading key path) ++ (turns.filterMap Turn.event?).toArray := by
  rw [Service.perform_toObjectStore]
  exact Exchange.goes_conduct service _ _

theorem goes_pure {a : α} : Goes (pure a) turns result ↔ turns = [] ∧ result = .ok a := by
  constructor
  · intro h
    cases h
    exact ⟨rfl, rfl⟩
  · intro given
    obtain ⟨rfl, rfl⟩ := given
    exact .done _

theorem goes_throw {f : Failure} :
    Goes (throw f : Upload α) turns result ↔ turns = [] ∧ result = .error f := by
  constructor
  · intro h
    cases h
    exact ⟨rfl, rfl⟩
  · intro given
    obtain ⟨rfl, rfl⟩ := given
    exact .done _

/-- One conversation after the other: a failure of the first is the failure of both. -/
theorem goes_bind {x : Upload α} {f : α → Upload β} {result : Except Failure β} :
    Goes (x >>= f) turns result ↔
      (∃ e, Goes x turns (.error e) ∧ result = .error e) ∨
      ∃ a first second, turns = first ++ second ∧ Goes x first (.ok a) ∧
        Goes (f a) second result := by
  unfold Goes
  rw [ExceptT.run_bind, Exchange.goes_bind]
  constructor
  · intro given
    obtain ⟨e | a, first, second, rfl, hx, hf⟩ := given
    · cases hf
      exact .inl ⟨e, by rwa [List.append_nil], rfl⟩
    · exact .inr ⟨a, first, second, rfl, hx, hf⟩
  · intro given
    rcases given with ⟨e, hx, rfl⟩ | ⟨a, first, second, rfl, hx, hf⟩
    · exact ⟨.error e, turns, [], (List.append_nil _).symm, hx, .done _⟩
    · exact ⟨.ok a, first, second, rfl, hx, hf⟩

/-- A failure is handled where it happened. -/
theorem goes_tryCatch {x : Upload α} {handler : Failure → Upload α} :
    Goes (tryCatch x handler) turns result ↔
      (∃ a, Goes x turns (.ok a) ∧ result = .ok a) ∨
      ∃ e first second, turns = first ++ second ∧ Goes x first (.error e) ∧
        Goes (handler e) second result := by
  -- The handler is part of what follows the conversation.
  show Exchange.Goes (ExceptT.tryCatch x handler).run turns result ↔ _
  rw [ExceptT.tryCatch, ExceptT.run_mk]
  show Exchange.Goes (x.run >>= _) turns result ↔ _
  rw [Exchange.goes_bind]
  constructor
  · intro given
    obtain ⟨e | a, first, second, rfl, hx, hf⟩ := given
    · exact .inr ⟨e, first, second, rfl, hx, hf⟩
    · cases hf
      exact .inl ⟨a, by rwa [List.append_nil], rfl⟩
  · intro given
    rcases given with ⟨a, hx, rfl⟩ | ⟨e, first, second, rfl, hx, hf⟩
    · exact ⟨.ok a, turns, [], (List.append_nil _).symm, hx, .done _⟩
    · exact ⟨.error e, first, second, rfl, hx, hf⟩

theorem goes_sizeOf_bind {file : Path} {f : Except FileError Nat → Upload α} :
    Goes (sizeOf file >>= f) turns result ↔
      ∃ answer rest, turns = .size file answer :: rest ∧ Goes (f answer) rest result := by
  change Exchange.Goes (.size file fun answer => (f answer).run) turns result ↔ _
  constructor
  · intro h
    cases h with
    | size answer h => exact ⟨answer, _, rfl, h⟩
  · intro given
    obtain ⟨answer, rest, rfl, h⟩ := given
    exact .size answer h

theorem goes_openFile_bind {file : Path} {f : Except FileError NodeId → Upload α} :
    Goes (openFile file >>= f) turns result ↔
      ∃ answer rest, turns = .openFile file answer :: rest ∧ Goes (f answer) rest result := by
  change Exchange.Goes (.openFile file fun answer => (f answer).run) turns result ↔ _
  constructor
  · intro h
    cases h with
    | openFile answer h => exact ⟨answer, _, rfl, h⟩
  · intro given
    obtain ⟨answer, rest, rfl, h⟩ := given
    exact .openFile answer h

theorem goes_readAll_bind {id : NodeId} {f : Except FileError ByteArray → Upload α} :
    Goes (readAll id >>= f) turns result ↔
      ∃ answer rest, turns = .readAll id answer :: rest ∧ Goes (f answer) rest result := by
  change Exchange.Goes (.readAll id fun answer => (f answer).run) turns result ↔ _
  constructor
  · intro h
    cases h with
    | readAll answer h => exact ⟨answer, _, rfl, h⟩
  · intro given
    obtain ⟨answer, rest, rfl, h⟩ := given
    exact .readAll answer h

theorem goes_readAt_bind {id : NodeId} {offset length : Nat} {f : Except FileError ByteArray → Upload α} :
    Goes (readAt id offset length >>= f) turns result ↔
      ∃ answer rest, turns = .readAt id offset length answer :: rest ∧ Goes (f answer) rest result := by
  change Exchange.Goes (.readAt id offset length fun answer => (f answer).run) turns result ↔ _
  constructor
  · intro h
    cases h with
    | readAt answer h => exact ⟨answer, _, rfl, h⟩
  · intro given
    obtain ⟨answer, rest, rfl, h⟩ := given
    exact .readAt answer h

theorem goes_send_bind {r : Request} {f : Except ServiceError Reply → Upload α} :
    Goes (send r >>= f) turns result ↔
      ∃ answer rest, turns = .send r answer :: rest ∧ Goes (f answer) rest result := by
  change Exchange.Goes (.send r fun answer => (f answer).run) turns result ↔ _
  constructor
  · intro h
    cases h with
    | send answer h => exact ⟨answer, _, rfl, h⟩
  · intro given
    obtain ⟨answer, rest, rfl, h⟩ := given
    exact .send answer h

theorem goes_log {line : Log.Line} {result : Except Failure Unit} :
    Goes (log line) turns result ↔ turns = [.log line] ∧ result = .ok () := by
  constructor
  · intro h
    cases h with
    | log h =>
      cases h
      exact ⟨rfl, rfl⟩
  · intro given
    obtain ⟨rfl, rfl⟩ := given
    exact .log (.done _)

/-- A refusal by the disk is a failure at once. -/
theorem goes_orFail_bind {p : Problem} {answer : Except FileError α} {f : α → Upload β}
    {result : Except Failure β} :
    Goes (orFail p answer >>= f) turns result ↔
      match answer with
      | .ok a => Goes (f a) turns result
      | .error e => turns = [] ∧ result = .error ((Failure.ofFile e).within p) := by
  cases answer with
  | error e => exact goes_throw
  | ok a => exact Iff.rfl

/-! ## §3. What is sent. -/

/-- All requests among some turns have a property. -/
def SendsOnly (p : Request → Prop) (turns : List Turn) : Prop :=
  ∀ t ∈ turns, ∀ r, t.request? = some r → p r

section sends

variable {p : Request → Prop} {t : Turn}

@[simp] theorem sendsOnly_nil : SendsOnly p [] := fun _ h => absurd h List.not_mem_nil

theorem sendsOnly_cons : SendsOnly p (t :: turns) ↔
    (∀ r, t.request? = some r → p r) ∧ SendsOnly p turns :=
  List.forall_mem_cons

/-- A turn that sends nothing does not matter. -/
theorem sendsOnly_cons_of_silent (h : t.request? = none) :
    SendsOnly p (t :: turns) ↔ SendsOnly p turns := by
  simp [sendsOnly_cons, h]

theorem sendsOnly_cons_send {r : Request} {answer : Except ServiceError Reply} :
    SendsOnly p (.send r answer :: turns) ↔ p r ∧ SendsOnly p turns := by
  simp [sendsOnly_cons, Turn.request?]

theorem sendsOnly_append {first second : List Turn} :
    SendsOnly p (first ++ second) ↔ SendsOnly p first ∧ SendsOnly p second :=
  List.forall_mem_append

/-- A request without the property is not among those turns. -/
theorem mem_append_of_sendsOnly {before last : List Turn} {r : Request}
    {answer : Except ServiceError Reply} (h : SendsOnly p before) (hr : ¬ p r) :
    .send r answer ∈ before ++ last ↔ .send r answer ∈ last := by
  rw [List.mem_append]
  exact or_iff_right fun hmem => hr (h _ hmem r rfl)

theorem SendsOnly.of_mem {r : Request} {answer : Except ServiceError Reply}
    (h : SendsOnly p turns) (hmem : .send r answer ∈ turns) : p r :=
  h _ hmem r rfl

end sends

/-- A request that sends a part of one upload. -/
def IsPartOf (address : Address) (uploadId : String) (r : Request) : Prop :=
  ∃ number body, r = .part address uploadId number body

variable {address : Address} {uploadId : String} {file : Path} {id : NodeId} {size : Nat}

theorem goes_create {result : Except Failure String} (h : Goes (create address) turns result) :
    ∃ answer, turns = [.send (.create address) answer] ∧
      ∀ uploadId, result = .ok uploadId ↔ answer = .ok (some uploadId) := by
  obtain ⟨answer, rest, rfl, went⟩ := goes_send_bind.1 h
  -- Nothing is asked after the answer.
  rcases answer with e | (_ | id)
  · obtain ⟨rfl, rfl⟩ := goes_throw.1 went
    exact ⟨_, rfl, by simp⟩
  · obtain ⟨rfl, rfl⟩ := goes_throw.1 went
    exact ⟨_, rfl, by simp⟩
  · obtain ⟨rfl, rfl⟩ := goes_pure.1 went
    exact ⟨_, rfl, by simp⟩

/-- Reading a part sends nothing. -/
theorem goes_readPart {p : Request → Prop} {number : Nat} {result : Except Failure ByteArray}
    (h : Goes (readPart file id size number) turns result) : SendsOnly p turns := by
  obtain ⟨answer, rest, rfl, went⟩ := goes_readAt_bind.1 h
  rw [sendsOnly_cons_of_silent rfl]
  have silent : rest = [] := by
    rw [goes_orFail_bind] at went
    rcases answer with e | body
    · exact went.1
    · dsimp only at went
      split at went
      · exact (goes_throw.1 went).1
      · exact (goes_pure.1 went).1
  rw [silent]
  exact sendsOnly_nil

theorem goes_sendPart {number : Nat} {body : ByteArray} {result : Except Failure StoredPart}
    (h : Goes (sendPart address uploadId number body) turns result) :
    SendsOnly (IsPartOf address uploadId) turns := by
  obtain ⟨answer, rest, rfl, went⟩ := goes_send_bind.1 h
  have silent : rest = [] := by
    rcases answer with e | (_ | tag)
    · exact (goes_throw.1 went).1
    · exact (goes_throw.1 went).1
    · exact (goes_pure.1 went).1
  rw [sendsOnly_cons_send, silent]
  exact ⟨⟨number, body, rfl⟩, sendsOnly_nil⟩

/-- **Parts are sent to one upload**, however many are left. -/
theorem goes_sendPartsFrom {number left : Nat} {result : Except Failure (List StoredPart)}
    (h : Goes (sendPartsFrom address uploadId file id size number left) turns result) :
    SendsOnly (IsPartOf address uploadId) turns := by
  induction left generalizing number turns result with
  | zero =>
    rw [(goes_pure.1 h).1]
    exact sendsOnly_nil
  | succ left ih =>
    unfold sendPartsFrom at h
    rcases goes_bind.1 h with ⟨e, hread, -⟩ | ⟨body, reading, rest, rfl, hread, went⟩
    · exact goes_readPart hread
    refine sendsOnly_append.2 ⟨goes_readPart hread, ?_⟩
    rcases goes_bind.1 went with ⟨e, hsend, -⟩ | ⟨stored, sending, rest, rfl, hsend, went⟩
    · exact goes_sendPart hsend
    refine sendsOnly_append.2 ⟨goes_sendPart hsend, ?_⟩
    rcases goes_bind.1 went with ⟨e, hrest, -⟩ | ⟨stored, others, rest, rfl, hrest, went⟩
    · exact ih hrest
    rw [(goes_pure.1 went).1, List.append_nil]
    exact ih hrest

theorem goes_sendParts {result : Except Failure (List StoredPart)}
    (h : Goes (sendParts address uploadId file size) turns result) :
    SendsOnly (IsPartOf address uploadId) turns := by
  obtain ⟨answer, rest, rfl, went⟩ := goes_openFile_bind.1 h
  rw [sendsOnly_cons_of_silent rfl]
  rw [goes_orFail_bind] at went
  rcases answer with e | id
  · rw [went.1]
    exact sendsOnly_nil
  · exact goes_sendPartsFrom went

theorem goes_complete {parts : List StoredPart} {result : Except Failure Unit}
    (h : Goes (complete address uploadId parts) turns result) :
    ∃ answer, turns = [.send (.completeMultipart address uploadId parts) answer] ∧
      ((∃ reply, answer = .ok reply ∧ result = .ok ()) ∨
        ∃ e f, answer = .error e ∧ result = .error f) := by
  obtain ⟨answer, rest, rfl, went⟩ := goes_send_bind.1 h
  rcases answer with e | reply
  · obtain ⟨rfl, rfl⟩ := goes_throw.1 went
    exact ⟨_, rfl, .inr ⟨e, _, rfl, rfl⟩⟩
  · obtain ⟨rfl, rfl⟩ := goes_pure.1 went
    exact ⟨_, rfl, .inl ⟨reply, rfl, rfl⟩⟩

/-- Giving an upload up is one request; that it fails is only logged. -/
theorem goes_abort {result : Except Failure Unit}
    (h : Goes (abort address uploadId) turns result) :
    result = .ok () ∧ ∃ answer rest,
      turns = .send (.abortMultipart address uploadId) answer :: rest ∧
        SendsOnly (fun _ => False) rest := by
  obtain ⟨answer, rest, rfl, went⟩ := goes_send_bind.1 h
  rcases answer with e | reply
  · obtain ⟨rfl, rfl⟩ := goes_log.1 went
    exact ⟨rfl, _, _, rfl, (sendsOnly_cons_of_silent rfl).2 sendsOnly_nil⟩
  · obtain ⟨rfl, rfl⟩ := goes_pure.1 went
    exact ⟨rfl, _, _, rfl, sendsOnly_nil⟩

/-- A small file is put at its address, and nothing else is sent. -/
theorem goes_small {result : Except Failure Unit} (h : Goes (small address file size) turns result) :
    SendsOnly (fun r => ∃ body, r = .put address size body) turns := by
  obtain ⟨opened, rest, rfl, went⟩ := goes_openFile_bind.1 h
  rw [sendsOnly_cons_of_silent rfl]
  rw [goes_orFail_bind] at went
  rcases opened with e | id
  · rw [went.1]
    exact sendsOnly_nil
  obtain ⟨data, others, rfl, wentOn⟩ := goes_readAll_bind.1 went
  rw [sendsOnly_cons_of_silent rfl]
  rcases data with e | body
  · rw [(goes_throw.1 wentOn).1]
    exact sendsOnly_nil
  obtain ⟨answer, last, rfl, ended⟩ := goes_send_bind.1 wentOn
  have silent : last = [] := by
    rcases answer with e | reply
    · exact (goes_throw.1 ended).1
    · exact (goes_pure.1 ended).1
  rw [sendsOnly_cons_send, silent]
  exact ⟨⟨body, rfl⟩, sendsOnly_nil⟩

/-! ## §4. Uploads in parts. -/

/-- The last turns of an upload in parts, and what it ends with: the request that completes it,
or the request that gives it up. -/
inductive Settles (address : Address) (uploadId : String) :
    List Turn → Except Failure Unit → Prop
  | completed (parts : List StoredPart) (reply : Reply) :
      Settles address uploadId [.send (.completeMultipart address uploadId parts) (.ok reply)]
        (.ok ())
  | completionFailed (parts : List StoredPart) (e : ServiceError) (f : Failure) :
      Settles address uploadId [.send (.completeMultipart address uploadId parts) (.error e)]
        (.error f)
  | aborted (answer : Except ServiceError Reply) (rest : List Turn) (f : Failure) :
      SendsOnly (fun _ => False) rest →
      Settles address uploadId (.send (.abortMultipart address uploadId) answer :: rest) (.error f)

/-- A failure of the parts is told after the upload was given up. -/
theorem goes_giveUp {f : Failure} {parts : Except Failure (List StoredPart)}
    (h : Goes (do abort address uploadId; throw f) turns parts) :
    parts = .error f ∧ ∃ answer rest,
      turns = .send (.abortMultipart address uploadId) answer :: rest ∧
        SendsOnly (fun _ => False) rest := by
  rcases goes_bind.1 h with ⟨e, habort, -⟩ | ⟨_, first, second, rfl, habort, hthrow⟩
  · cases (goes_abort habort).1
  · obtain ⟨rfl, rfl⟩ := goes_throw.1 hthrow
    rw [List.append_nil]
    exact ⟨rfl, (goes_abort habort).2⟩

/-- **Many requests**: one opens the upload, and if it did, parts follow and then one more. -/
theorem goes_large {result : Except Failure Unit} (h : Goes (large address file size) turns result) :
    ∃ answer rest, turns = .send (.create address) answer :: rest ∧
      ((∃ uploadId sent last, answer = .ok (some uploadId) ∧ rest = sent ++ last ∧
          SendsOnly (IsPartOf address uploadId) sent ∧ Settles address uploadId last result) ∨
        (∀ uploadId, answer ≠ .ok (some uploadId)) ∧ rest = [] ∧ ∃ f, result = .error f) := by
  rcases goes_bind.1 h with ⟨e, hcreate, rfl⟩ | ⟨uploadId, first, rest, rfl, hcreate, went⟩
  · obtain ⟨answer, rfl, hid⟩ := goes_create hcreate
    refine ⟨answer, [], rfl, .inr ⟨?_, rfl, e, rfl⟩⟩
    intro uploadId hanswer
    cases (hid uploadId).2 hanswer
  obtain ⟨answer, rfl, hid⟩ := goes_create hcreate
  refine ⟨answer, rest, rfl, .inl ?_⟩
  rcases goes_bind.1 went with ⟨e, hparts, rfl⟩ | ⟨parts, sending, last, rfl, hparts, hlast⟩
  · -- The parts failed, and the failure was passed on.
    rcases goes_tryCatch.1 hparts with ⟨_, -, given⟩ | ⟨f, sent, last, rfl, hsent, hlast⟩
    · cases given
    · obtain ⟨-, answer', quiet, rfl, silent⟩ := goes_giveUp hlast
      exact ⟨uploadId, sent, _, (hid uploadId).1 rfl, rfl, goes_sendParts hsent,
        .aborted answer' quiet e silent⟩
  · rcases goes_tryCatch.1 hparts with ⟨_, hsent, -⟩ | ⟨f, sent, handled, rfl, -, hhandled⟩
    · refine ⟨uploadId, sending, last, (hid uploadId).1 rfl, rfl, goes_sendParts hsent, ?_⟩
      obtain ⟨answer', rfl, ⟨reply, rfl, rfl⟩ | ⟨e, f, rfl, rfl⟩⟩ := goes_complete hlast
      · exact .completed parts reply
      · exact .completionFailed parts e f
    · cases (goes_giveUp hhandled).1

/-! ## §5. The end of an upload in parts. -/

/-- The upload was completed, and the service agreed. -/
def Completed (address : Address) (uploadId : String) (turns : List Turn) : Prop :=
  ∃ parts reply, .send (.completeMultipart address uploadId parts) (.ok reply) ∈ turns

/-- The upload was to be completed, and that failed. -/
def CompletionFailed (address : Address) (uploadId : String) (turns : List Turn) : Prop :=
  ∃ parts e, .send (.completeMultipart address uploadId parts) (.error e) ∈ turns

/-- The upload was given up, whatever the service said to it. -/
def Aborted (address : Address) (uploadId : String) (turns : List Turn) : Prop :=
  ∃ answer, .send (.abortMultipart address uploadId) answer ∈ turns

/-- An upload is settled without being opened again. -/
theorem Settles.sendsOnly {last : List Turn} {result : Except Failure Unit}
    (h : Settles address uploadId last result) :
    SendsOnly (fun r => r.kind ≠ .createMultipart) last := by
  cases h with
  | completed parts reply => exact sendsOnly_cons_send.2 ⟨by simp [Request.kind], sendsOnly_nil⟩
  | completionFailed parts e f =>
    exact sendsOnly_cons_send.2 ⟨by simp [Request.kind], sendsOnly_nil⟩
  | aborted answer rest f silent =>
    exact sendsOnly_cons_send.2 ⟨by simp [Request.kind], fun t ht r hr => (silent t ht r hr).elim⟩

/-- How an upload ended is told by its last turns. -/
theorem ends_of_settles (before : List Turn) {last : List Turn} {result : Except Failure Unit}
    (h : SendsOnly (fun r => r.kind = .createMultipart ∨ r.kind = .uploadPart) before)
    (settles : Settles address uploadId last result) :
    (result = .ok () → Completed address uploadId (before ++ last) ∧
      ¬ CompletionFailed address uploadId (before ++ last) ∧
      ¬ Aborted address uploadId (before ++ last)) ∧
    ∀ f, result = .error f → ¬ Completed address uploadId (before ++ last) ∧
      (Aborted address uploadId (before ++ last) ↔
        ¬ CompletionFailed address uploadId (before ++ last)) := by
  have completing : ∀ parts answer,
      .send (.completeMultipart address uploadId parts) answer ∈ before ++ last ↔
        .send (.completeMultipart address uploadId parts) answer ∈ last :=
    fun _ _ => mem_append_of_sendsOnly h (by simp [Request.kind])
  have aborting : ∀ answer, .send (.abortMultipart address uploadId) answer ∈ before ++ last ↔
        .send (.abortMultipart address uploadId) answer ∈ last :=
    fun _ => mem_append_of_sendsOnly h (by simp [Request.kind])
  unfold Completed CompletionFailed Aborted
  simp only [completing, aborting]
  cases settles with
  | completed parts reply => simp
  | completionFailed parts e f => simp
  | aborted answer rest f silent =>
    have quiet : ∀ r answer', .send r answer' ∉ rest := fun r _ hmem => silent.of_mem hmem
    simp [quiet]

/-- **How an upload in parts ends.**  If the service opened an upload, then there are three ways
in which it can end.  It succeeds, and has been completed.  It fails, and has been aborted.  Or
it fails because completing it failed; then it has not been aborted. -/
theorem opened_upload_ends {result : Except Failure Unit}
    (h : Goes (Upload.file address file) turns result)
    (opened : .send (.create address) (.ok (some uploadId)) ∈ turns) :
    (result = .ok () → Completed address uploadId turns ∧
      ¬ CompletionFailed address uploadId turns ∧ ¬ Aborted address uploadId turns) ∧
    ∀ f, result = .error f → ¬ Completed address uploadId turns ∧
      (Aborted address uploadId turns ↔ ¬ CompletionFailed address uploadId turns) := by
  obtain ⟨answer, rest, rfl, went⟩ := goes_sizeOf_bind.1 h
  have created : .send (.create address) (.ok (some uploadId)) ∈ rest := by
    simpa using opened
  rw [goes_orFail_bind] at went
  rcases answer with e | size
  · rw [went.1] at created
    exact absurd created List.not_mem_nil
  dsimp only at went
  split at went
  · obtain ⟨reply, others, rfl, ⟨id, sent, last, rfl, rfl, parts, settles⟩ | ⟨none, rfl, -⟩⟩ :=
      goes_large went
    · have onlyParts : SendsOnly (fun r => r.kind = .uploadPart) sent := by
        intro t ht r hr
        obtain ⟨number, body, rfl⟩ := parts t ht r hr
        rfl
      -- There is one request that opens an upload, so it is this one that was answered.
      obtain rfl : uploadId = id := by
        rcases List.mem_cons.1 created with given | hmem
        · cases given
          rfl
        · rw [mem_append_of_sendsOnly onlyParts (by simp [Request.kind, Request.create])] at hmem
          exact absurd rfl (settles.sendsOnly.of_mem hmem)
      refine ends_of_settles (.size file (.ok size) ::
        .send (.create address) (.ok (some uploadId)) :: sent) ?_ settles
      rw [sendsOnly_cons_of_silent rfl, sendsOnly_cons_send]
      exact ⟨.inl rfl, fun t ht r hr => .inr (onlyParts t ht r hr)⟩
    · cases List.mem_singleton.1 created
      exact absurd rfl (none uploadId)
  · -- A small file opens no upload.
    obtain ⟨body, given⟩ := (goes_small went).of_mem created
    cases given

/-- Parts that are read as zeros and sent, one after the other. -/
def smoothTurns (address : Address) (uploadId : String) (id : NodeId) (size : Nat) :
    (number left : Nat) → List Turn
  | _, 0 => []
  | number, left + 1 =>
    let body := zeros (partLength size number)
    .readAt id (partStart number) (partLength size number) (.ok body) ::
      .send (.part address uploadId number body) (.ok (some "etag")) ::
      smoothTurns address uploadId id size (number + 1) left

/-- What the service answered them with. -/
def smoothParts : (number left : Nat) → List StoredPart
  | _, 0 => []
  | number, left + 1 => ⟨number, "etag"⟩ :: smoothParts (number + 1) left

theorem goes_smoothTurns (address : Address) (uploadId : String) (file : Path) (id : NodeId)
    (size number left : Nat) :
    Goes (sendPartsFrom address uploadId file id size number left)
      (smoothTurns address uploadId id size number left) (.ok (smoothParts number left)) := by
  induction left generalizing number with
  | zero => exact goes_pure.2 ⟨rfl, rfl⟩
  | succ left ih =>
    have read : Goes (readPart file id size number)
        [.readAt id (partStart number) (partLength size number)
          (.ok (zeros (partLength size number)))]
        (.ok (zeros (partLength size number))) := by
      refine goes_readAt_bind.2 ⟨_, [], rfl, goes_orFail_bind.2 ?_⟩
      dsimp only
      rw [size_zeros, if_neg (Nat.lt_irrefl _)]
      exact goes_pure.2 ⟨rfl, rfl⟩
    have sent : Goes (sendPart address uploadId number (zeros (partLength size number)))
        [.send (.part address uploadId number (zeros (partLength size number)))
          (.ok (some "etag"))] (.ok ⟨number, "etag"⟩) :=
      goes_send_bind.2 ⟨_, [], rfl, goes_pure.2 ⟨rfl, rfl⟩⟩
    refine goes_bind.2 (.inr ⟨_, _, _, rfl, read, ?_⟩)
    refine goes_bind.2 (.inr ⟨_, _, _, rfl, sent, ?_⟩)
    refine goes_bind.2 (.inr ⟨_, _, [], (List.append_nil _).symm, ih (number + 1), ?_⟩)
    exact goes_pure.2 ⟨rfl, rfl⟩

/-- The address of the examples. -/
def sampleAddress : Address := ⟨"zk-p2p", "v1/venmo_send.zkey"⟩

/-- A file that is sent in seven parts. -/
def sampleSize : Nat := 52428801

/-- The turns of an upload that is opened, and whose file cannot be opened after that. -/
def turnsWithoutFile : List Turn :=
  [.size (Path.ofString "venmo_send.zkey") (.ok sampleSize),
    .send (.create sampleAddress) (.ok (some "upload-1")),
    .openFile (Path.ofString "venmo_send.zkey") (.error .notFound),
    .send (.abortMultipart sampleAddress "upload-1") (.error (.connection "gone")),
    .log (.abortFailed sampleAddress.key "gone")]

/-- An upload that was opened and could not go on is given up, even if the service does not
hear of it. -/
theorem opened_upload_without_file_ends :
    ∃ f, Goes (Upload.file sampleAddress (Path.ofString "venmo_send.zkey")) turnsWithoutFile
        (.error f) ∧
      .send (.create sampleAddress) (.ok (some "upload-1")) ∈ turnsWithoutFile ∧
      ¬ CompletionFailed sampleAddress "upload-1" turnsWithoutFile ∧
      Aborted sampleAddress "upload-1" turnsWithoutFile := by
  have goes : Goes (Upload.file sampleAddress (Path.ofString "venmo_send.zkey")) turnsWithoutFile
      (.error (((Failure.ofFile .notFound).within (.openParts (Path.ofString "venmo_send.zkey"))).within
        .partsAborted)) := .size _ (.send _ (.openFile _ (.send _ (.log (.done _)))))
  have opened : .send (.create sampleAddress) (.ok (some "upload-1")) ∈ turnsWithoutFile :=
    List.mem_cons_of_mem _ List.mem_cons_self
  have complete : ¬ CompletionFailed sampleAddress "upload-1" turnsWithoutFile := by
    simp [CompletionFailed, turnsWithoutFile, Request.create]
  exact ⟨_, goes, opened, complete, (((opened_upload_ends goes opened).2 _ rfl).2).2 complete⟩

/-- The turns of an upload all of whose parts are stored, and that cannot be completed. -/
def turnsWithoutEnd : List Turn :=
  [.size (Path.ofString "venmo_send.zkey") (.ok sampleSize),
    .send (.create sampleAddress) (.ok (some "upload-1")),
    .openFile (Path.ofString "venmo_send.zkey") (.ok 0)]
    ++ smoothTurns sampleAddress "upload-1" 0 sampleSize 1 (partCount sampleSize)
    ++ [.send (.completeMultipart sampleAddress "upload-1" (smoothParts 1 (partCount sampleSize)))
      (.error (.refused 500 "InternalError"))]

/-- **An upload that cannot be completed is abandoned**: it was opened, it fails, and nothing
was sent to give it up. -/
theorem completion_failure_abandons :
    ∃ f, Goes (Upload.file sampleAddress (Path.ofString "venmo_send.zkey")) turnsWithoutEnd
        (.error f) ∧
      sampleSize > Defaults.largeFileThreshold ∧
      .send (.create sampleAddress) (.ok (some "upload-1")) ∈ turnsWithoutEnd ∧
      ∀ answer, .send (.abortMultipart sampleAddress "upload-1") answer ∉ turnsWithoutEnd := by
  have parts := goes_smoothTurns sampleAddress "upload-1" (Path.ofString "venmo_send.zkey") 0
    sampleSize 1 (partCount sampleSize)
  refine ⟨⟨.completeMultipart, (ServiceError.refused 500 "InternalError").causes⟩, ?_, by decide,
    by simp [turnsWithoutEnd], ?_⟩
  · have sent : Goes (sendParts sampleAddress "upload-1" (Path.ofString "venmo_send.zkey")
        sampleSize) (.openFile (Path.ofString "venmo_send.zkey") (.ok 0) ::
          smoothTurns sampleAddress "upload-1" 0 sampleSize 1 (partCount sampleSize))
        (.ok (smoothParts 1 (partCount sampleSize))) :=
      goes_openFile_bind.2 ⟨_, _, rfl, goes_orFail_bind.2 parts⟩
    refine goes_sizeOf_bind.2 ⟨.ok sampleSize, _, rfl, goes_orFail_bind.2 ?_⟩
    dsimp only
    rw [if_pos (by decide)]
    refine goes_bind.2 (.inr ⟨"upload-1", [_], _, rfl, .send _ (.done _), ?_⟩)
    exact goes_bind.2 (.inr ⟨_, _, _, rfl, goes_tryCatch.2 (.inl ⟨_, sent, rfl⟩),
      goes_send_bind.2 ⟨.error (.refused 500 "InternalError"), [], rfl, goes_throw.2 ⟨rfl, rfl⟩⟩⟩)
  · intro answer hmem
    -- Before the last request there are only parts.
    rcases List.mem_append.1 hmem with hmem | hmem
    · rcases List.mem_append.1 hmem with hmem | hmem
      · simp [Request.create] at hmem
      · obtain ⟨number, body, given⟩ := (goes_sendPartsFrom parts).of_mem hmem
        cases given
    · cases List.mem_singleton.1 hmem

end Upload

end ArtifactCourier.Store
