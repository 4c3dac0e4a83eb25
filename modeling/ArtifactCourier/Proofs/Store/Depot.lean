/-
  ArtifactCourier.Proofs.Store.Depot
  ──────────────────────────────────────
  **A service that keeps objects.**

  A depot holds objects and uploads in parts that are under way.  Which requests it accepts,
  and with which reply, is decided by an arbitrary verdict; so every sequence of answers
  can come about.  A request that is not accepted has no effect.  One that is accepted has
  the effect that is written down in `Depot.accept`.

    • `Depot.accept` — the effect of an accepted request,
    • `Depot.service` — the depot as a service,
    • `Honest` — a request that declares the length that its body has.
-/
import ArtifactCourier.Proofs.Store.Conduct

namespace ArtifactCourier.Store

/-! ## §1. The depot. -/

/-- An object: its bytes, and what was laid down about it. -/
structure Object where
  content : ByteArray
  attributes : Attributes

/-- An upload in parts: where it goes to, what its object will be like, and for every number the
part that was sent last, with the tag it got. -/
structure Pending where
  address : Address
  attributes : Attributes
  parts : Nat → Option (Reply × ByteArray)

/-- A part of an upload, if it has the tag that it is listed with. -/
def Pending.part (u : Pending) (listed : StoredPart) : ByteArray :=
  match u.parts listed.number with
  | some (reply, body) => if reply = some listed.tag then body else ByteArray.empty
  | none => ByteArray.empty

/-- The listed parts of an upload, put together. -/
def Pending.assemble (u : Pending) : List StoredPart → ByteArray
  | [] => ByteArray.empty
  | listed :: rest => u.part listed ++ u.assemble rest

/-- The same upload with another part of a number. -/
def Pending.addPart (u : Pending) (number : Nat) (reply : Reply) (body : ByteArray) : Pending :=
  { u with parts := fun n => if n = number then some (reply, body) else u.parts n }

/-- A depot; `mind` is all that its verdicts depend on. -/
structure Depot (ω : Type) where
  objects : Address → Option Object
  pending : String → Option Pending
  mind : ω

namespace Depot

variable {ω : Type}

/-- The objects with another one at an address. -/
def put (objects : Address → Option Object) (address : Address) (o : Object) :
    Address → Option Object :=
  fun a => if a = address then some o else objects a

/-- The uploads with another state of one of them. -/
def setPending (d : Depot ω) (id : String) (u : Option Pending) : Depot ω :=
  { d with pending := fun i => if i = id then u else d.pending i }

/-- The upload of an id, if it goes to an address. -/
def pendingAt (d : Depot ω) (address : Address) (id : String) : Option Pending :=
  (d.pending id).filter (·.address = address)

/-- **The effect of an accepted request.** -/
def accept (d : Depot ω) : Request → Reply → Depot ω
  | .putObject address attributes _ body, _ =>
    { d with objects := put d.objects address ⟨body, attributes⟩ }
  | .createMultipart address attributes, some id =>
    d.setPending id (some ⟨address, attributes, fun _ => none⟩)
  | .createMultipart _ _, none => d
  | .uploadPart address id number _ body, reply =>
    match d.pendingAt address id with
    | some u => d.setPending id (some (u.addPart number reply body))
    | none => d
  | .completeMultipart address id listed, _ =>
    match d.pendingAt address id with
    | some u =>
      { d.setPending id none with
        objects := put d.objects address ⟨u.assemble listed, u.attributes⟩ }
    | none => d
  | .abortMultipart address id, _ =>
    match d.pendingAt address id with
    | some _ => d.setPending id none
    | none => d

/-- **The depot as a service.**  Nobody else is at the disk. -/
def service (verdict : Request → ω → Except ServiceError Reply × ω) : Service (Depot ω) where
  answer r d :=
    match verdict r d.mind with
    | (.error e, mind) => (.error e, { d with mind := mind })
    | (.ok reply, mind) => (.ok reply, { d.accept r reply with mind := mind })
  meanwhile _ _ disk := disk

end Depot

/-! ## §2. What happens in the meantime. -/

/-- A request declares the length that its body has. -/
def Request.Honest (r : Request) : Prop :=
  ∀ length body, r.body? = some (length, body) → 0 ≤ length ∧ length = body.size

/-- From one session to another only honest requests were sent, and the disk is the same. -/
structure Since {σ : Type} (s s' : Session σ) : Prop where
  disk : s'.disk = s.disk
  honest : ∃ sent, s'.events.toList = s.events.toList ++ sent ∧
    ∀ r, Event.request r ∈ sent → r.Honest

namespace Since

variable {σ : Type} {s s' s'' : Session σ}

theorem refl (s : Session σ) : Since s s :=
  ⟨rfl, [], (List.append_nil _).symm, fun _ h => absurd h List.not_mem_nil⟩

theorem trans (first : Since s s') (second : Since s' s'') : Since s s'' := by
  obtain ⟨before, hbefore, hfirst⟩ := first.honest
  obtain ⟨after, hafter, hsecond⟩ := second.honest
  refine ⟨second.disk.trans first.disk, before ++ after, ?_, ?_⟩
  · rw [hafter, hbefore, List.append_assoc]
  · intro r hr
    rcases List.mem_append.1 hr with hr | hr
    · exact hfirst r hr
    · exact hsecond r hr

/-- One event more. -/
theorem of_push {e : Event} (hdisk : s'.disk = s.disk) (hevents : s'.events = s.events.push e)
    (honest : ∀ r, e = .request r → r.Honest) : Since s s' := by
  refine ⟨hdisk, [e], ?_, ?_⟩
  · rw [hevents, Array.toList_push]
  · intro r hr
    exact honest r (List.mem_singleton.1 hr).symm

end Since

theorem Request.honest_put {address : Address} {size : Nat} {body : ByteArray}
    (hbody : body.size = size) (hsize : size < 0x8000000000000000) :
    (Request.put address size body).Honest := by
  intro length body' h
  simp only [put, body?, Option.some.injEq, Prod.mk.injEq] at h
  obtain ⟨hlength, rfl⟩ := h
  -- The length is declared as a signed number, which it fits into.
  rw [← hlength, declaredLength_of_lt hsize, hbody]
  omega

theorem Request.honest_part {address : Address} {uploadId : String} {number : Nat}
    {body : ByteArray} (hsize : body.size < 0x8000000000000000) :
    (Request.part address uploadId number body).Honest := by
  intro length body' h
  simp only [part, body?, Option.some.injEq, Prod.mk.injEq] at h
  obtain ⟨hlength, rfl⟩ := h
  rw [← hlength, declaredLength_of_lt hsize]
  omega

/-- A request without a body declares no length. -/
theorem Request.honest_of_no_body {r : Request} (h : r.body? = none) : r.Honest := by
  intro length body hbody
  rw [h] at hbody
  cases hbody

end ArtifactCourier.Store
