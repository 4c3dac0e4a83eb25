/-
  ArtifactCourier.Proofs.Store.Share
  ──────────────────────────────────────
  **What one upload does to a store, whatever others do beside it.**

  Of all that is in a store, an upload has little to itself: the upload in parts that it has
  opened, if it has, and the object that it has installed, if it has.  This is its share.  What
  it may send depends on its share alone, and so does what comes of a request for it.

  `Plays c x v Q` says of a conversation `x` from the share `v`: whatever is answered, it sends
  only what it may, and what it ends with and its share are then as `Q` says.  It is a
  predicate over the tree of the conversation, so it also holds of what is left of a
  conversation in the middle of it.

    • `Share`, `Call.MaySend`, `Share.after` — shares, and how requests change them,
    • `plays_bind`, `behaves_bind`, `behaves_tryCatch` — one conversation after the other,
    • `behaves_sendPartsFrom` — the parts that have been sent, put together, are the file,
    • `behaves_file` — an upload installs the whole file and succeeds, or fails without.
-/
import ArtifactCourier.Proofs.Store.Contract

namespace ArtifactCourier.Store

open FileSystem

variable {α β : Type}

/-! ## §1. Shares. -/

/-- An upload that is asked for: where a file is to be stored, and the disk with the file, which
stays as it is. -/
structure Call where
  address : Address
  file : Path
  disk : FileSystem

/-- **What of a store is an upload's own.** -/
inductive Share where
  /-- Nothing. -/
  | idle
  /-- An upload in parts that is open, with the parts that were sent. -/
  | opened (id : String) (parts : Nat → Option (Reply × ByteArray))
  /-- The object. -/
  | installed

/-- The share once a request was accepted. -/
def Share.after : Share → Request → Reply → Share
  | idle, .putObject .., _ => installed
  | idle, .createMultipart .., some id => opened id fun _ => none
  | opened id parts, .uploadPart _ _ number _ body, reply =>
    opened id fun n => if n = number then some (reply, body) else parts n
  | opened _ _, .completeMultipart .., _ => installed
  | opened _ _, .abortMultipart .., _ => idle
  | v, _, _ => v

namespace Call

/-- The upload in parts that a call has opened. -/
def pending (c : Call) (parts : Nat → Option (Reply × ByteArray)) : Pending :=
  ⟨c.address, .artifact, parts⟩

/-- **What a call may send.**  An object, or parts that are put together to one, must be the
whole file; parts go to the upload that the call has opened itself. -/
def MaySend (c : Call) : Share → Request → Prop
  | .idle, .putObject address attributes _ body =>
    address = c.address ∧ attributes = .artifact ∧ c.disk.bytesAt c.file = .ok body
  | .idle, .createMultipart address attributes => address = c.address ∧ attributes = .artifact
  | .opened id _, .uploadPart address id' _ _ _ => address = c.address ∧ id' = id
  | .opened id parts, .completeMultipart address id' listed =>
    address = c.address ∧ id' = id ∧
      c.disk.bytesAt c.file = .ok ((c.pending parts).assemble listed)
  | .opened id _, .abortMultipart address id' => address = c.address ∧ id' = id
  | _, _ => False

/-! ## §2. Conversations. -/

/-- **Whatever is answered**, a conversation sends only what it may, and ends with `Q`.  What
the disk answers is known, as it stays as it is. -/
def Plays (c : Call) : Exchange α → Share → (α → Share → Prop) → Prop
  | .done a, v, Q => Q a v
  | .size file next, v, Q => c.Plays (next ((c.disk.stat file).map Node.size)) v Q
  | .openFile file next, v, Q => c.Plays (next (c.disk.openRead file)) v Q
  | .readAll id next, v, Q => c.Plays (next (c.disk.readAll id)) v Q
  | .readAt id offset length next, v, Q => c.Plays (next (c.disk.readAt id offset length)) v Q
  | .send r next, v, Q =>
    c.MaySend v r ∧ (∀ e, c.Plays (next (.error e)) v Q) ∧
      ∀ reply, c.Plays (next (.ok reply)) (v.after r reply) Q
  | .log _ next, v, Q => c.Plays next v Q

variable {c : Call} {v : Share}

theorem plays_bind {x : Exchange α} {f : α → Exchange β} {Q : β → Share → Prop} :
    c.Plays (x >>= f) v Q ↔ c.Plays x v fun a v' => c.Plays (f a) v' Q := by
  change c.Plays (x.bind f) v Q ↔ _
  induction x generalizing v with
  | done a => exact Iff.rfl
  | size file next ih => exact ih _
  | openFile file next ih => exact ih _
  | readAll id next ih => exact ih _
  | readAt id offset length next ih => exact ih _
  | send r next ih =>
    exact and_congr_right fun _ => and_congr (forall_congr' fun _ => ih _)
      (forall_congr' fun _ => ih _)
  | log line next ih => exact ih

theorem Plays.mono {x : Exchange α} {Q Q' : α → Share → Prop} (h : c.Plays x v Q)
    (hQ : ∀ a v', Q a v' → Q' a v') : c.Plays x v Q' := by
  induction x generalizing v with
  | done a => exact hQ a v h
  | size file next ih => exact ih _ h
  | openFile file next ih => exact ih _ h
  | readAll id next ih => exact ih _ h
  | readAt id offset length next ih => exact ih _ h
  | send r next ih => exact ⟨h.1, fun e => ih _ (h.2.1 e), fun reply => ih _ (h.2.2 reply)⟩
  | log line next ih => exact ih h

/-- The same of a conversation that may fail. -/
def Behaves (c : Call) (x : Upload α) (v : Share) (Q : Except Failure α → Share → Prop) : Prop :=
  c.Plays x.run v Q

theorem Behaves.mono {x : Upload α} {Q Q' : Except Failure α → Share → Prop}
    (h : c.Behaves x v Q) (hQ : ∀ r v', Q r v' → Q' r v') : c.Behaves x v Q' :=
  Plays.mono h hQ

section rules

variable {Q : Except Failure β → Share → Prop} {f : α → Upload β}

theorem behaves_pure {b : β} : c.Behaves (pure b) v Q ↔ Q (.ok b) v := Iff.rfl

theorem behaves_throw {e : Failure} : c.Behaves (throw e : Upload β) v Q ↔ Q (.error e) v := Iff.rfl

/-- One conversation after the other: a failure of the first is the failure of both. -/
theorem behaves_bind {x : Upload α} :
    c.Behaves (x >>= f) v Q ↔ c.Behaves x v fun r v' =>
      match r with
      | .ok a => c.Behaves (f a) v' Q
      | .error e => Q (.error e) v' := by
  unfold Behaves
  rw [ExceptT.run_bind, plays_bind]
  -- Both sides ask the same after the first conversation.
  constructor <;> intro h <;> refine Plays.mono h ?_ <;> intro r v' hr <;> cases r <;> exact hr

/-- A failure is handled where it happened. -/
theorem behaves_tryCatch {x : Upload β} {handler : Failure → Upload β} :
    c.Behaves (tryCatch x handler) v Q ↔ c.Behaves x v fun r v' =>
      match r with
      | .ok b => Q (.ok b) v'
      | .error e => c.Behaves (handler e) v' Q := by
  show c.Plays (ExceptT.tryCatch x handler).run v Q ↔ _
  rw [ExceptT.tryCatch, ExceptT.run_mk]
  show c.Plays (x.run >>= _) v Q ↔ _
  rw [plays_bind]
  unfold Behaves
  constructor <;> intro h <;> refine Plays.mono h ?_ <;> intro r v' hr <;> cases r <;> exact hr

theorem behaves_sizeOf_bind {file : Path} {f : Except FileError Nat → Upload β} :
    c.Behaves (Upload.sizeOf file >>= f) v Q ↔
      c.Behaves (f ((c.disk.stat file).map Node.size)) v Q := Iff.rfl

theorem behaves_openFile_bind {file : Path} {f : Except FileError NodeId → Upload β} :
    c.Behaves (Upload.openFile file >>= f) v Q ↔ c.Behaves (f (c.disk.openRead file)) v Q := Iff.rfl

theorem behaves_readAll_bind {id : NodeId} {f : Except FileError ByteArray → Upload β} :
    c.Behaves (Upload.readAll id >>= f) v Q ↔ c.Behaves (f (c.disk.readAll id)) v Q := Iff.rfl

theorem behaves_readAt_bind {id : NodeId} {offset length : Nat}
    {f : Except FileError ByteArray → Upload β} :
    c.Behaves (Upload.readAt id offset length >>= f) v Q ↔
      c.Behaves (f (c.disk.readAt id offset length)) v Q := Iff.rfl

/-- **A request** must be allowed, and may fail. -/
theorem behaves_send_bind {r : Request} {f : Except ServiceError Reply → Upload β} :
    c.Behaves (Upload.send r >>= f) v Q ↔ c.MaySend v r ∧
      (∀ e, c.Behaves (f (.error e)) v Q) ∧
      ∀ reply, c.Behaves (f (.ok reply)) (v.after r reply) Q := Iff.rfl

theorem behaves_orFail_bind {p : Problem} {answer : Except FileError α} :
    c.Behaves (Upload.orFail p answer >>= f) v Q ↔
      match answer with
      | .ok a => c.Behaves (f a) v Q
      | .error e => Q (.error ((Failure.ofFile e).within p)) v := by
  cases answer <;> exact Iff.rfl

end rules

/-! ## §3. Small files. -/

/-- An upload has ended: it succeeded if and only if it has installed its object. -/
def Settled (r : Except Failure Unit) (v : Share) : Prop := r = .ok () ↔ v = .installed

/-- **One request.** -/
theorem behaves_small (size : Nat) :
    c.Behaves (Upload.small c.address c.file size) .idle Settled := by
  have failed : ∀ f, Settled (.error f) .idle := by simp [Settled]
  unfold Upload.small
  dsimp only
  rw [behaves_openFile_bind, behaves_orFail_bind]
  cases hopen : c.disk.openRead c.file with
  | error e => exact failed _
  | ok id =>
    dsimp only
    rw [behaves_readAll_bind]
    cases hread : c.disk.readAll id with
    | error e => exact failed _
    | ok body =>
      refine behaves_send_bind.2 ⟨⟨rfl, rfl, Depot.bytesAt_of_openRead hopen hread⟩, ?_, ?_⟩
      · intro e
        exact failed _
      · intro reply
        exact iff_of_true rfl rfl

/-! ## §4. Large files. -/

theorem behaves_create :
    c.Behaves (Upload.create c.address) .idle fun r v =>
      match r with
      | .ok id => v = .opened id fun _ => none
      | .error _ => v = .idle := by
  unfold Upload.create
  refine behaves_send_bind.2 ⟨⟨rfl, rfl⟩, fun e => rfl, ?_⟩
  rintro (_ | id)
  · exact rfl
  · exact rfl

/-- A part that was read is all of that part. -/
theorem behaves_readPart (file : Path) (id : NodeId) (size number : Nat) :
    c.Behaves (Upload.readPart file id size number) v fun r v' => v' = v ∧
      ∀ body, r = .ok body → ∃ data, c.disk.readAll id = .ok data ∧
        body = data.extract (partStart number) (partStart number + partLength size number) := by
  unfold Upload.readPart
  dsimp only
  rw [behaves_readAt_bind, behaves_orFail_bind]
  unfold readAt
  cases hread : c.disk.readAll id with
  | error e => exact ⟨rfl, by intro _ given; cases given⟩
  | ok data =>
    dsimp only [Except.map]
    split
    · exact ⟨rfl, by intro _ given; cases given⟩
    · refine ⟨rfl, ?_⟩
      intro _ given
      cases given
      exact ⟨data, rfl, rfl⟩

variable {uploadId : String} {parts : Nat → Option (Reply × ByteArray)}

/-- A part that was sent is among the parts, under its number and with its tag. -/
theorem behaves_sendPart (number : Nat) (body : ByteArray) :
    c.Behaves (Upload.sendPart c.address uploadId number body) (.opened uploadId parts) fun r v =>
      match r with
      | .ok stored => stored.number = number ∧
          v = .opened uploadId fun n => if n = number then some (some stored.tag, body) else parts n
      | .error _ => ∃ parts', v = .opened uploadId parts' := by
  unfold Upload.sendPart
  refine behaves_send_bind.2 ⟨⟨rfl, rfl⟩, fun e => ⟨parts, rfl⟩, ?_⟩
  rintro (_ | tag)
  · exact ⟨_, rfl⟩
  · exact ⟨rfl, rfl⟩

/-- **The parts that have been sent.**  Put together as they are listed, they are the stretch of
the file that they were to cover.  The induction is on the number of parts that are left; it
carries that the parts with smaller numbers are not touched any more. -/
theorem behaves_sendPartsFrom (file : Path) {id : NodeId} {size : Nat}
    (hsize : ∀ data, c.disk.readAll id = .ok data → data.size = size) {number : Nat}
    (hnumber : 0 < number) (left : Nat) :
    c.Behaves (Upload.sendPartsFrom c.address uploadId file id size number left)
      (.opened uploadId parts) fun r v =>
        ∃ parts', v = .opened uploadId parts' ∧ ∀ listed, r = .ok listed →
          (∀ n < number, parts' n = parts n) ∧
          (0 < left → ∃ data, c.disk.readAll id = .ok data) ∧
          ∀ data, c.disk.readAll id = .ok data →
            (c.pending parts').assemble listed
              = data.extract (partStart number) (partsEnd size number left) := by
  induction left generalizing parts number with
  | zero =>
    refine behaves_pure.2 ⟨parts, rfl, ?_⟩
    intro _ given
    cases given
    refine ⟨fun _ _ => rfl, fun hleft => absurd hleft (Nat.lt_irrefl 0), fun data _ => ?_⟩
    symm
    rw [Pending.assemble, ByteArray.extract_eq_empty_iff]
    unfold partsEnd partStart
    rw [Nat.add_zero]
    omega
  | succ left ih =>
    unfold Upload.sendPartsFrom
    refine behaves_bind.2 ((behaves_readPart file id size number).mono ?_)
    rintro (e | body) _ ⟨rfl, hbody⟩
    · exact ⟨parts, rfl, by intro _ given; cases given⟩
    obtain ⟨data, hdata, hextract⟩ := hbody body rfl
    refine behaves_bind.2 ((behaves_sendPart number body).mono ?_)
    rintro (e | stored) v hv
    · obtain ⟨parts', rfl⟩ := hv
      exact ⟨parts', rfl, by intro _ given; cases given⟩
    obtain ⟨hstored, rfl⟩ := hv
    refine behaves_bind.2 ((ih (Nat.succ_pos number)).mono ?_)
    rintro (e | rest) v hv
    · obtain ⟨parts', rfl, -⟩ := hv
      exact ⟨parts', rfl, by intro _ given; cases given⟩
    obtain ⟨parts', rfl, hrest⟩ := hv
    obtain ⟨hbefore, -, hassembled⟩ := hrest rest rfl
    refine behaves_pure.2 ⟨parts', rfl, ?_⟩
    intro _ given
    cases given
    refine ⟨fun n hn => ?_, fun _ => ⟨data, hdata⟩, fun data' hdata' => ?_⟩
    · rw [hbefore n (by omega), if_neg (Nat.ne_of_lt hn)]
    · rw [hdata] at hdata'
      cases hdata'
      -- Later parts have greater numbers, so the first one is still there.
      have hfirst : (c.pending parts').part stored = body := by
        have there : (c.pending parts').parts number = some (some stored.tag, body) :=
          (hbefore number (Nat.lt_succ_self _)).trans (if_pos rfl)
        rw [Pending.part, hstored, there]
        exact if_pos rfl
      rw [Pending.assemble, hfirst, hassembled data hdata, hextract, ← hsize data hdata]
      exact extract_tile hnumber left

/-- All parts, put together, are the file. -/
theorem behaves_sendParts {size : Nat}
    (hsize : ∀ content, c.disk.bytesAt c.file = .ok content → content.size = size) :
    c.Behaves (Upload.sendParts c.address uploadId c.file size) (.opened uploadId parts) fun r v =>
      ∃ parts', v = .opened uploadId parts' ∧ ∀ listed, r = .ok listed →
        c.disk.bytesAt c.file = .ok ((c.pending parts').assemble listed) := by
  unfold Upload.sendParts
  rw [behaves_openFile_bind, behaves_orFail_bind]
  cases hopen : c.disk.openRead c.file with
  | error e => exact ⟨parts, rfl, by intro _ given; cases given⟩
  | ok id =>
    have hsize' : ∀ data, c.disk.readAll id = .ok data → data.size = size :=
      fun data hdata => hsize data (Depot.bytesAt_of_openRead hopen hdata)
    refine (behaves_sendPartsFrom c.file hsize' Nat.zero_lt_one (partCount size)).mono ?_
    rintro r _ ⟨parts', rfl, hlisted⟩
    refine ⟨parts', rfl, fun listed hr => ?_⟩
    obtain ⟨-, hread, hassembled⟩ := hlisted listed hr
    obtain ⟨data, hdata⟩ := hread (Nat.le_max_left 1 _)
    rw [hassembled data hdata, extract_all (hsize' data hdata)]
    exact Depot.bytesAt_of_openRead hopen hdata

/-- An upload that is completed has installed what its parts are put together to. -/
theorem behaves_complete {listed : List StoredPart}
    (h : c.disk.bytesAt c.file = .ok ((c.pending parts).assemble listed)) :
    c.Behaves (Upload.complete c.address uploadId listed) (.opened uploadId parts) Settled := by
  unfold Upload.complete
  refine behaves_send_bind.2 ⟨⟨rfl, rfl, h⟩, fun e => ?_, fun reply => ?_⟩
  · exact iff_of_false nofun nofun
  · exact iff_of_true rfl rfl

/-- An upload that is given up fails, and nothing was installed. -/
theorem behaves_giveUp (f : Failure) :
    c.Behaves (do Upload.abort c.address uploadId; throw f : Upload (List StoredPart))
      (.opened uploadId parts) fun r v => r = .error f ∧ v ≠ .installed := by
  have aborted : c.Behaves (Upload.abort c.address uploadId) (.opened uploadId parts)
      fun r v => r = .ok () ∧ v ≠ .installed := by
    unfold Upload.abort
    exact behaves_send_bind.2 ⟨⟨rfl, rfl⟩, fun e => ⟨rfl, nofun⟩, fun reply => ⟨rfl, nofun⟩⟩
  refine behaves_bind.2 (aborted.mono ?_)
  rintro _ v ⟨rfl, hv⟩
  exact behaves_throw.2 ⟨rfl, hv⟩

/-- **Many requests.** -/
theorem behaves_large {size : Nat}
    (hsize : ∀ content, c.disk.bytesAt c.file = .ok content → content.size = size) :
    c.Behaves (Upload.large c.address c.file size) .idle Settled := by
  unfold Upload.large
  refine behaves_bind.2 (behaves_create.mono ?_)
  rintro (e | uploadId) v hv
  · rw [hv]
    exact iff_of_false nofun nofun
  rw [hv]
  refine behaves_bind.2 (behaves_tryCatch.2 ((behaves_sendParts hsize).mono ?_))
  rintro (f | listed) _ ⟨parts, rfl, hlisted⟩
  · refine (behaves_giveUp _).mono ?_
    rintro _ v ⟨rfl, hv⟩
    exact iff_of_false nofun hv
  · exact behaves_complete (hlisted listed rfl)

/-! ## §5. Any file. -/

/-- **One upload**, whatever the store answers and whatever others do beside it: it sends only
what it may, and it has installed the whole file in the end if and only if it succeeds. -/
theorem behaves_file (c : Call) : c.Behaves (Upload.file c.address c.file) .idle Settled := by
  unfold Upload.file
  rw [behaves_sizeOf_bind, behaves_orFail_bind]
  cases hstat : c.disk.stat c.file with
  | error e => exact iff_of_false nofun nofun
  | ok n =>
    dsimp only [Except.map]
    split
    · exact behaves_large fun content hbytes => Depot.size_of_bytesAt hstat hbytes
    · exact behaves_small _

end Call
end ArtifactCourier.Store
