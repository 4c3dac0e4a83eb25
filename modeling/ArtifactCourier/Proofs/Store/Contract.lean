/-
  ArtifactCourier.Proofs.Store.Contract
  ──────────────────────────────────────
  **An upload stores the whole file or nothing.**

  A small file goes up in one request, a large one in parts.  In front of a depot both come
  to the same: an upload that succeeds puts the bytes of the file at its address, with the
  attributes of an artifact, and touches no other object; one that fails touches none.

  Each conversation gets one specification.  What is not changed yet is the same in all of
  them: `Since` says that the disk is as it was and that only honest requests were sent.

    • `extract_tile` — a part and the parts behind it,
    • `carry_small` — one request,
    • `carry_sendPartsFrom` — the parts that have been sent, put together, are the file,
    • `upload_stores_all_or_nothing` — the contract.
-/
import ArtifactCourier.Proofs.FileSystem.Sound
import ArtifactCourier.Proofs.Store.Depot

namespace ArtifactCourier.Store

open FileSystem

/-! ## §1. Parts of a file. -/

/-- Where `left` parts end that begin with part `number`. -/
def partsEnd (size number left : Nat) : Nat := min ((number - 1 + left) * Defaults.partSize) size

/-- **A part and the parts behind it.** -/
theorem extract_tile {data : ByteArray} {number : Nat} (hnumber : 0 < number) (left : Nat) :
    data.extract (partStart number) (partStart number + partLength data.size number)
        ++ data.extract (partStart (number + 1)) (partsEnd data.size (number + 1) left)
      = data.extract (partStart number) (partsEnd data.size number (left + 1)) := by
  obtain ⟨n, rfl⟩ : ∃ n, number = n + 1 := ⟨number - 1, by omega⟩
  unfold partLength partEnd partsEnd partStart
  have hnext : (n + 1) * Defaults.partSize = n * Defaults.partSize + Defaults.partSize :=
    Nat.succ_mul _ _
  have hlater : (n + (left + 1)) * Defaults.partSize
      = n * Defaults.partSize + Defaults.partSize + left * Defaults.partSize := by
    rw [← hnext, ← Nat.add_mul]
    congr 1
    omega
  have hlater' : (n + 1 + left) * Defaults.partSize = (n + (left + 1)) * Defaults.partSize := by
    congr 1
    omega
  simp only [Nat.add_sub_cancel, hlater', hlater, hnext]
  -- Only where the part starts and how far it reaches matters from here on.
  generalize n * Defaults.partSize = start
  generalize left * Defaults.partSize = behind
  generalize Defaults.partSize = part
  by_cases hfull : start + part ≤ data.size
  · -- The part is a full one, and the next begins where it ends.
    have hend : start + (min (start + part) data.size - start) = start + part := by omega
    rw [hend, ByteArray.extract_append_extract]
    congr 1 <;> omega
  · -- The part is the last, and nothing is behind it.
    have hnone : data.extract (start + part) (min (start + part + behind) data.size)
        = ByteArray.empty := by
      rw [ByteArray.extract_eq_empty_iff]
      omega
    rw [hnone, ByteArray.append_empty]
    rcases Nat.le_total start data.size with hstart | hstart
    · congr 1
      omega
    · rw [ByteArray.extract_eq_empty_iff.2 (by omega), ByteArray.extract_eq_empty_iff.2 (by omega)]

/-- From the first on, all parts reach to the end. -/
theorem extract_all {data : ByteArray} {size : Nat} (h : data.size = size) :
    data.extract (partStart 1) (partsEnd size 1 (partCount size)) = data := by
  have hend : partsEnd size 1 (partCount size) = data.size := by
    unfold partsEnd
    rw [Nat.sub_self, Nat.zero_add, h]
    exact partEnd_partCount size
  rw [hend]
  unfold partStart
  rw [Nat.sub_self, Nat.zero_mul]
  exact ByteArray.extract_zero_size

/-! ## §2. Requests. -/

namespace Depot

variable {ω : Type} (verdict : Request → ω → Except ServiceError Reply × ω)
  {s s' : Session (Depot ω)} {address : Address} {uploadId : String} {u : Pending}

/-- **One request to a depot.**  If it fails, the objects and the uploads are as they were; if it
is accepted, it has its effect. -/
theorem carry_send {r : Request} (honest : r.Honest) (s : Session (Depot ω)) :
    ∃ reply s', (service verdict).carry (Upload.send r) s = (.ok reply, s') ∧ Since s s' ∧
      match reply with
      | .error _ => s'.store.objects = s.store.objects
      | .ok reply =>
        s'.store.objects = (s.store.accept r reply).objects ∧
          s'.store.pending = (s.store.accept r reply).pending := by
  refine ⟨_, _, Service.carry_send _ r s, ?_, ?_⟩
  · refine Since.of_push (e := .request r) rfl rfl ?_
    intro _ given
    cases given
    exact honest
  · unfold service
    dsimp only
    rcases verdict r s.store.mind with ⟨e | reply, mind⟩
    · rfl
    · exact ⟨rfl, rfl⟩

/-- An upload has put the whole file at its address, or has touched no object. -/
def AllOrNothing (address : Address) (file : Path) (s s' : Session (Depot ω)) :
    Except Failure Unit → Prop
  | .ok () => ∃ content, s.disk.bytesAt file = .ok content ∧
      s'.store.objects = put s.store.objects address ⟨content, .artifact⟩
  | .error _ => s'.store.objects = s.store.objects

theorem bytesAt_of_openRead {fs : FileSystem} {file : Path} {id : NodeId} {data : ByteArray}
    (hopen : fs.openRead file = .ok id) (hread : fs.readAll id = .ok data) :
    fs.bytesAt file = .ok data := by
  unfold bytesAt
  rw [hopen]
  exact hread

/-! ## §3. Small files. -/

/-- **One request.** -/
theorem carry_small {file : Path} {size : Nat}
    (hsize : ∀ content, s.disk.bytesAt file = .ok content → content.size = size)
    (hsmall : size ≤ Defaults.largeFileThreshold) :
    ∃ result s', (service verdict).carry (Upload.small address file size) s = (result, s') ∧
      Since s s' ∧ AllOrNothing address file s s' result := by
  unfold Upload.small
  dsimp only
  rw [Service.carry_bind, Service.carry_openFile]
  dsimp only
  rw [Service.carry_bind, Service.carry_orFail]
  cases hopen : s.disk.openRead file with
  | error e => exact ⟨_, s, rfl, Since.refl s, rfl⟩
  | ok id =>
    dsimp only [Except.mapError]
    rw [Service.carry_bind, Service.carry_readAll]
    dsimp only
    cases hread : s.disk.readAll id with
    | error e => exact ⟨_, s, rfl, Since.refl s, rfl⟩
    | ok body =>
      have hbytes := bytesAt_of_openRead hopen hread
      -- The length was looked up and the body was read, from the same disk.
      have honest : (Request.put address size body).Honest := by
        apply Request.honest_put (hsize body hbytes)
        exact Nat.lt_of_le_of_lt hsmall (by decide)
      obtain ⟨reply, s', hsend, since, heffect⟩ := carry_send verdict honest s
      dsimp only
      rw [Service.carry_bind, hsend]
      cases reply with
      | error e => exact ⟨_, s', rfl, since, heffect⟩
      | ok reply => exact ⟨_, s', rfl, since, body, hbytes, heffect.1⟩

/-! ## §4. Large files. -/

/-- An upload is opened without a part. -/
theorem carry_create (address : Address) (s : Session (Depot ω)) :
    ∃ result s', (service verdict).carry (Upload.create address) s = (result, s') ∧
      Since s s' ∧ s'.store.objects = s.store.objects ∧
      ∀ uploadId, result = .ok uploadId →
        s'.store.pendingAt address uploadId = some ⟨address, .artifact, fun _ => none⟩ := by
  obtain ⟨reply, s', hsend, since, heffect⟩ :=
    carry_send verdict (r := .create address) (Request.honest_of_no_body rfl) s
  unfold Upload.create
  rw [Service.carry_bind, hsend]
  rcases reply with e | (_ | id)
  · exact ⟨_, s', rfl, since, heffect, by intro _ given; cases given⟩
  · exact ⟨_, s', rfl, since, heffect.1, by intro _ given; cases given⟩
  · refine ⟨_, s', rfl, since, heffect.1, ?_⟩
    intro _ given
    cases given
    unfold pendingAt
    rw [heffect.2]
    simp [accept, Request.create, setPending]

/-- A part that was read is all of that part. -/
theorem carry_readPart (file : Path) (id : NodeId) (size number : Nat) (s : Session (Depot ω)) :
    ∃ result, (service verdict).carry (Upload.readPart file id size number) s = (result, s) ∧
      ∀ body, result = .ok body → body.size = partLength size number ∧
        ∃ data, s.disk.readAll id = .ok data ∧
          body = data.extract (partStart number) (partStart number + partLength size number) := by
  unfold Upload.readPart
  dsimp only
  rw [Service.carry_bind, Service.carry_readAt]
  dsimp only
  rw [Service.carry_bind, Service.carry_orFail]
  unfold readAt
  cases hread : s.disk.readAll id with
  | error e => exact ⟨_, rfl, by intro _ given; cases given⟩
  | ok data =>
    dsimp only [Except.map, Except.mapError]
    split
    · exact ⟨_, rfl, by intro _ given; cases given⟩
    · next hlong =>
      -- A piece that is too short is refused, so this one is the whole part.
      refine ⟨_, rfl, ?_⟩
      intro _ given
      cases given
      refine ⟨?_, data, rfl, rfl⟩
      rw [ByteArray.size_extract] at hlong ⊢
      omega

theorem address_of_pendingAt {d : Depot ω} (h : d.pendingAt address uploadId = some u) :
    u.address = address := by
  unfold pendingAt at h
  obtain ⟨-, haddress⟩ := Option.filter_eq_some_iff.1 h
  simpa using haddress

/-- A part that was sent is in the upload, under its number and with its tag. -/
theorem carry_sendPart (h : s.store.pendingAt address uploadId = some u) (number : Nat)
    {body : ByteArray} (hsize : body.size ≤ Defaults.partSize) :
    ∃ result s', (service verdict).carry (Upload.sendPart address uploadId number body) s
        = (result, s') ∧
      Since s s' ∧ s'.store.objects = s.store.objects ∧
      ∀ stored, result = .ok stored → stored.number = number ∧
        s'.store.pendingAt address uploadId
          = some (u.addPart number (some stored.tag) body) := by
  have honest : (Request.part address uploadId number body).Honest :=
    Request.honest_part (Nat.lt_of_le_of_lt hsize (by decide))
  obtain ⟨reply, s', hsend, since, heffect⟩ := carry_send verdict honest s
  unfold Upload.sendPart
  rw [Service.carry_bind, hsend]
  rcases reply with e | reply
  · exact ⟨_, s', rfl, since, heffect, by intro _ given; cases given⟩
  · have haccept : s.store.accept (.part address uploadId number body) reply
        = s.store.setPending uploadId (some (u.addPart number reply body)) := by
      simp only [Request.part, accept, h]
    dsimp only at heffect
    rw [haccept] at heffect
    rcases reply with _ | tag
    · exact ⟨_, s', rfl, since, heffect.1, by intro _ given; cases given⟩
    · refine ⟨_, s', rfl, since, heffect.1, ?_⟩
      intro _ given
      cases given
      refine ⟨rfl, ?_⟩
      unfold pendingAt
      rw [heffect.2]
      simp [setPending, Pending.addPart, address_of_pendingAt h]

/-- **The parts that have been sent.**  Put together as they are listed, they are the stretch of
the file that they were to cover, whatever is sent under greater numbers later.  The induction
is on the number of parts that are left; what it carries is that the parts with smaller
numbers are not touched any more. -/
theorem carry_sendPartsFrom (file : Path) {id : NodeId} {size : Nat}
    (hsize : ∀ data, s.disk.readAll id = .ok data → data.size = size)
    (h : s.store.pendingAt address uploadId = some u) {number : Nat} (hnumber : 0 < number)
    (left : Nat) :
    ∃ result s', (service verdict).carry
          (Upload.sendPartsFrom address uploadId file id size number left) s = (result, s') ∧
      Since s s' ∧ s'.store.objects = s.store.objects ∧
      ∀ listed, result = .ok listed → ∃ u',
        s'.store.pendingAt address uploadId = some u' ∧
        u'.attributes = u.attributes ∧ (∀ n < number, u'.parts n = u.parts n) ∧
        (0 < left → ∃ data, s.disk.readAll id = .ok data) ∧
        ∀ data, s.disk.readAll id = .ok data →
          u'.assemble listed = data.extract (partStart number) (partsEnd size number left) := by
  induction left generalizing s u number with
  | zero =>
    -- No parts cover an empty stretch.
    refine ⟨.ok [], s, rfl, Since.refl s, rfl, ?_⟩
    intro _ given
    cases given
    refine ⟨u, h, rfl, fun _ _ => rfl, fun hleft => absurd hleft (Nat.lt_irrefl 0), ?_⟩
    intro data _
    symm
    rw [Pending.assemble, ByteArray.extract_eq_empty_iff]
    unfold partsEnd partStart
    rw [Nat.add_zero]
    omega
  | succ left ih =>
    unfold Upload.sendPartsFrom
    obtain ⟨body, hread, hbody⟩ := carry_readPart verdict file id size number s
    rw [Service.carry_bind, hread]
    rcases body with e | body
    · exact ⟨_, s, rfl, Since.refl s, rfl, by intro _ given; cases given⟩
    obtain ⟨hlength, data, hdata, hextract⟩ := hbody body rfl
    have hpart : body.size ≤ Defaults.partSize := by
      rw [hlength]
      unfold partLength partEnd partStart
      obtain ⟨n, rfl⟩ : ∃ n, number = n + 1 := ⟨number - 1, by omega⟩
      rw [Nat.succ_mul, Nat.add_sub_cancel]
      omega
    obtain ⟨stored, s₁, hsend, since₁, hobjects₁, hstored⟩ :=
      carry_sendPart verdict h number hpart
    dsimp only
    rw [Service.carry_bind, hsend]
    rcases stored with e | stored
    · exact ⟨_, s₁, rfl, since₁, hobjects₁, by intro _ given; cases given⟩
    -- The part is in the upload; the others are sent to the upload as it is now.
    obtain ⟨hstoredNumber, hpending⟩ := hstored stored rfl
    have hsize₁ : ∀ data, s₁.disk.readAll id = .ok data → data.size = size := by
      rw [since₁.disk]
      exact hsize
    obtain ⟨rest, s₂, hrest, since₂, hobjects₂, hlisted⟩ :=
      ih hsize₁ hpending (Nat.succ_pos number)
    dsimp only
    rw [Service.carry_bind, hrest]
    have since := since₁.trans since₂
    have hobjects := hobjects₂.trans hobjects₁
    rcases rest with e | rest
    · exact ⟨_, s₂, rfl, since, hobjects, by intro _ given; cases given⟩
    obtain ⟨u', hpending', hattributes, hbefore, hassembled⟩ := hlisted rest rfl
    refine ⟨_, s₂, rfl, since, hobjects, ?_⟩
    intro _ given
    cases given
    refine ⟨u', hpending', hattributes, ?_, fun _ => ⟨data, hdata⟩, ?_⟩
    · intro n hn
      rw [hbefore n (by omega)]
      simp [Pending.addPart, Nat.ne_of_lt hn]
    · intro data' hdata'
      rw [hdata] at hdata'
      cases hdata'
      -- Later parts have greater numbers, so the first one is still there.
      have hfirst : u'.part stored = body := by
        unfold Pending.part
        rw [hstoredNumber, hbefore number (Nat.lt_succ_self _)]
        simp [Pending.addPart]
      rw [Pending.assemble, hfirst, hassembled.2 data (by rw [since₁.disk]; exact hdata), hextract,
        ← hsize data hdata]
      exact extract_tile hnumber left

/-- All parts, put together, are the file. -/
theorem carry_sendParts {file : Path} {size : Nat}
    (hsize : ∀ content, s.disk.bytesAt file = .ok content → content.size = size)
    (h : s.store.pendingAt address uploadId = some u) :
    ∃ result s', (service verdict).carry (Upload.sendParts address uploadId file size) s
        = (result, s') ∧
      Since s s' ∧ s'.store.objects = s.store.objects ∧
      ∀ listed, result = .ok listed → ∃ u' content,
        s'.store.pendingAt address uploadId = some u' ∧ u'.attributes = u.attributes ∧
        s.disk.bytesAt file = .ok content ∧ u'.assemble listed = content := by
  unfold Upload.sendParts
  rw [Service.carry_bind, Service.carry_openFile]
  dsimp only
  rw [Service.carry_bind, Service.carry_orFail]
  cases hopen : s.disk.openRead file with
  | error e => exact ⟨_, s, rfl, Since.refl s, rfl, by intro _ given; cases given⟩
  | ok id =>
    have hsize' : ∀ data, s.disk.readAll id = .ok data → data.size = size :=
      fun data hdata => hsize data (bytesAt_of_openRead hopen hdata)
    obtain ⟨result, s', hcarry, since, hobjects, hlisted⟩ :=
      carry_sendPartsFrom verdict file hsize' h Nat.zero_lt_one (partCount size)
    refine ⟨result, s', hcarry, since, hobjects, ?_⟩
    intro listed hresult
    obtain ⟨u', hpending, hattributes, -, hread, hassembled⟩ := hlisted listed hresult
    obtain ⟨data, hdata⟩ := hread (Nat.le_max_left 1 _)
    refine ⟨u', data, hpending, hattributes, bytesAt_of_openRead hopen hdata, ?_⟩
    rw [hassembled data hdata, extract_all (hsize' data hdata)]

/-- An upload that is completed puts its parts together at its address. -/
theorem carry_complete (h : s.store.pendingAt address uploadId = some u)
    (listed : List StoredPart) :
    ∃ result s', (service verdict).carry (Upload.complete address uploadId listed) s
        = (result, s') ∧ Since s s' ∧
      match result with
      | .ok () => s'.store.objects
          = put s.store.objects address ⟨u.assemble listed, u.attributes⟩
      | .error _ => s'.store.objects = s.store.objects := by
  obtain ⟨reply, s', hsend, since, heffect⟩ := carry_send verdict
    (r := .completeMultipart address uploadId listed) (Request.honest_of_no_body rfl) s
  unfold Upload.complete
  rw [Service.carry_bind, hsend]
  rcases reply with e | reply
  · exact ⟨_, s', rfl, since, heffect⟩
  · refine ⟨_, s', rfl, since, ?_⟩
    dsimp only at heffect
    simp only [accept, h] at heffect
    exact heffect.1

/-- Giving an upload up touches no object, whether or not it succeeds. -/
theorem carry_abort (address : Address) (uploadId : String) (s : Session (Depot ω)) :
    ∃ result s', (service verdict).carry (Upload.abort address uploadId) s = (result, s') ∧
      result = .ok () ∧ Since s s' ∧ s'.store.objects = s.store.objects := by
  obtain ⟨reply, s', hsend, since, heffect⟩ := carry_send verdict
    (r := .abortMultipart address uploadId) (Request.honest_of_no_body rfl) s
  unfold Upload.abort
  rw [Service.carry_bind, hsend]
  rcases reply with e | reply
  · refine ⟨_, _, rfl, rfl, since.trans ?_, heffect⟩
    exact Since.of_push rfl rfl (by intro _ given; cases given)
  · refine ⟨_, s', rfl, rfl, since, ?_⟩
    rw [heffect.1]
    unfold accept
    dsimp only
    split <;> rfl

/-- **Many requests.** -/
theorem carry_large {file : Path} {size : Nat}
    (hsize : ∀ content, s.disk.bytesAt file = .ok content → content.size = size) :
    ∃ result s', (service verdict).carry (Upload.large address file size) s = (result, s') ∧
      Since s s' ∧ AllOrNothing address file s s' result := by
  unfold Upload.large
  obtain ⟨created, s₁, hcreate, since₁, hobjects₁, hopened⟩ :=
    carry_create verdict address s
  rw [Service.carry_bind, hcreate]
  rcases created with e | uploadId
  · exact ⟨_, s₁, rfl, since₁, hobjects₁⟩
  have hpending := hopened uploadId rfl
  have hsize₁ : ∀ content, s₁.disk.bytesAt file = .ok content → content.size = size := by
    rw [since₁.disk]
    exact hsize
  obtain ⟨sent, s₂, hsend, since₂, hobjects₂, hlisted⟩ := carry_sendParts verdict hsize₁ hpending
  dsimp only
  rw [Service.carry_bind, Service.carry_tryCatch, hsend]
  rcases sent with f | listed
  · -- What becomes of the parts does not matter: no object is touched.
    obtain ⟨aborted, s₃, habort, rfl, since₃, hobjects₃⟩ :=
      carry_abort verdict address uploadId s₂
    dsimp only
    rw [Service.carry_bind, habort]
    refine ⟨_, s₃, rfl, (since₁.trans since₂).trans since₃, ?_⟩
    exact hobjects₃.trans (hobjects₂.trans hobjects₁)
  · obtain ⟨u, content, hpending', hattributes, hbytes, hassembled⟩ := hlisted listed rfl
    rw [since₁.disk] at hbytes
    obtain ⟨result, s₃, hcomplete, since₃, heffect⟩ :=
      carry_complete verdict hpending' listed
    refine ⟨result, s₃, hcomplete, (since₁.trans since₂).trans since₃, ?_⟩
    rcases result with f | _
    · exact heffect.trans (hobjects₂.trans hobjects₁)
    · -- The attributes are those with which the upload was opened.
      refine ⟨content, hbytes, ?_⟩
      rw [heffect, hassembled, hattributes, hobjects₂, hobjects₁]

/-! ## §5. Any file. -/

/-- The size of a file is the number of its bytes. -/
theorem size_of_bytesAt {fs : FileSystem} {file : Path} {n : Node} {content : ByteArray}
    (hstat : fs.stat file = .ok n) (hbytes : fs.bytesAt file = .ok content) :
    content.size = n.size := by
  obtain ⟨id, hlocate, hnode⟩ := stat_eq_ok.1 hstat
  unfold bytesAt at hbytes
  cases hopen : fs.openRead file with
  | error e =>
    rw [hopen] at hbytes
    cases hbytes
  | ok opened =>
    obtain rfl : opened = id := by
      have same := (openRead_eq_ok hopen).symm.trans hlocate
      cases same
      rfl
    rw [hopen] at hbytes
    change fs.readAll opened = .ok content at hbytes
    unfold readAll kind? at hbytes
    rw [hnode] at hbytes
    obtain ⟨kind, mode, mtime⟩ := n
    -- What can be read is a file or a device; a device that can be read holds nothing.
    cases kind with
    | file stored =>
      cases hbytes
      exact Content.size_bytes stored
    | directory _ _ => cases hbytes
    | _ =>
      cases hbytes
      rfl

/-- **One upload**, whichever way is taken. -/
theorem carry_file (address : Address) (file : Path) (s : Session (Depot ω)) :
    ∃ result s', (service verdict).carry (Upload.file address file) s = (result, s') ∧
      Since s s' ∧ AllOrNothing address file s s' result := by
  unfold Upload.file
  rw [Service.carry_bind, Service.carry_sizeOf]
  dsimp only
  rw [Service.carry_bind, Service.carry_orFail]
  cases hstat : s.disk.stat file with
  | error e => exact ⟨_, s, rfl, Since.refl s, rfl⟩
  | ok n =>
    have hsize : ∀ content, s.disk.bytesAt file = .ok content → content.size = n.size :=
      fun content hbytes => size_of_bytesAt hstat hbytes
    dsimp only [Except.map, Except.mapError]
    split
    · exact carry_large verdict hsize
    · next hsmall => exact carry_small verdict hsize (Nat.le_of_not_lt hsmall)

end Depot

/-- **The contract of an upload.**  Whatever the depot answers, an upload ends in one of two ways.
If it succeeds, the bytes of the file are the object at the address of the upload, readable by
all and of the type of bare bytes, and all other objects are as they were.  If it fails, all
objects are as they were.  Each request that carried bytes declared how many. -/
theorem upload_stores_all_or_nothing {ω : Type}
    (verdict : Request → ω → Except ServiceError Reply × ω) (bucket key : String) (file : Path)
    (s : Session (Depot ω)) :
    ∃ result s',
      (((Depot.service verdict).toObjectStore bucket).upload file key).perform s = (result, s') ∧
      (match result with
        | .ok () => ∃ content, s.disk.bytesAt file = .ok content ∧
            s'.store.objects ⟨bucket, key⟩
              = some ⟨content, ⟨"public-read", "binary/octet-stream"⟩⟩ ∧
            ∀ other, other ≠ ⟨bucket, key⟩ → s'.store.objects other = s.store.objects other
        | .error _ => s'.store.objects = s.store.objects) ∧
      ∃ sent, s'.events.toList = s.events.toList ++ sent ∧
        ∀ r, Event.request r ∈ sent → ∀ length body, r.body? = some (length, body) →
          0 ≤ length ∧ length = body.size := by
  -- An upload begins with an event that is no request.
  let began : Session (Depot ω) := { s with events := s.events.push (.uploading key file) }
  have beginning : Since s began := Since.of_push rfl rfl (by intro _ given; cases given)
  obtain ⟨result, s', hcarry, since, outcome⟩ :=
    Depot.carry_file verdict ⟨bucket, key⟩ file began
  obtain ⟨sent, hsent, honest⟩ := (beginning.trans since).honest
  refine ⟨result, s', ?_, ?_, sent, hsent, honest⟩
  · rw [Service.perform_toObjectStore]
    exact hcarry
  · rcases result with f | _
    · exact outcome
    · obtain ⟨content, hbytes, hobjects⟩ := outcome
      refine ⟨content, hbytes, ?_, ?_⟩
      · rw [hobjects, Depot.put, if_pos rfl]
        rfl
      · intro other hother
        rw [hobjects, Depot.put, if_neg hother]

end ArtifactCourier.Store
