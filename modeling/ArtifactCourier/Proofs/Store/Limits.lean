/-
  ArtifactCourier.Proofs.Store.Limits
  ──────────────────────────────────────
  **How large a file the service takes in parts.**

  A service bounds the parts of an upload in three ways: each has a number up to 10,000, each but
  the last has at least 5 MiB, and none has more than 5 GiB.  Parts of a fixed size keep the
  bounds on lengths whatever the file is, but as many of them are sent as the file needs.

    • `Request.LengthAllowed`, `Request.NumberAllowed` — the bounds,
    • `goes_large_parts` — the parts of a whole upload are those of one exchange,
    • `faultlessTurns` — an upload of any size in which nothing fails,
    • `parts_within_limits` — the lengths are always allowed, the numbers up to 83,886,080,000
      bytes.
-/
import ArtifactCourier.Proofs.Store.Ranges

namespace ArtifactCourier.Store

/-! ## §1. The bounds of the service. -/

/-- The length of a part is allowed, if the request sends one of `count` parts: at least 5 MiB
except for the last, and at most 5 GiB. -/
def Request.LengthAllowed (count : Nat) : Request → Prop
  | uploadPart _ _ number _ body =>
    (number < count → 5 * 2 ^ 20 ≤ body.size) ∧ body.size ≤ 5 * 2 ^ 30
  | _ => True

/-- The number of a part is allowed, if the request sends one. -/
def Request.NumberAllowed : Request → Prop
  | uploadPart _ _ number _ _ => 1 ≤ number ∧ number ≤ 10000
  | _ => True

/-- Only parts are bounded. -/
theorem Request.lengthAllowed_of_ne {r : Request} (h : r.kind ≠ .uploadPart) (count : Nat) :
    r.LengthAllowed count := by
  cases r with
  | uploadPart address uploadId number length body => exact absurd rfl h
  | _ => exact True.intro

theorem Request.numberAllowed_of_ne {r : Request} (h : r.kind ≠ .uploadPart) : r.NumberAllowed := by
  cases r with
  | uploadPart address uploadId number length body => exact absurd rfl h
  | _ => exact True.intro

/-- If a turn reads a part, it gets no more bytes than it asked for. -/
def Turn.AtMostAsked : Turn → Prop
  | readAt _ _ length (.ok body) => body.size ≤ length
  | _ => True

namespace Upload

variable {address : Address} {uploadId : String} {path : Path} {id : NodeId}
  {size number left : Nat} {turns : List Turn} {result : Except Failure Unit}

/-- **A file of `size` bytes is to be stored**, and no read answers more than was asked. -/
structure Stores (address : Address) (path : Path) (size : Nat) (turns : List Turn)
    (result : Except Failure Unit) : Prop where
  goes : Goes (Upload.file address path) turns result
  sized : turns.head? = some (.size path (.ok size))
  truthful : ∀ t ∈ turns, t.AtMostAsked

/-! ## §2. The parts of a whole upload. -/

theorem mem_requests_iff {r : Request} : r ∈ requests turns ↔ ∃ t ∈ turns, t.request? = some r :=
  List.mem_filterMap

theorem SendsOnly.of_mem_requests {p : Request → Prop} {r : Request} (h : SendsOnly p turns)
    (hr : r ∈ requests turns) : p r := by
  obtain ⟨t, ht, hrequest⟩ := mem_requests_iff.1 hr
  exact h t ht r hrequest

/-- **All parts of an upload are those of one exchange**, whatever becomes of the upload. -/
theorem goes_large_parts (h : Goes (large address path size) turns result) :
    ∃ uploadId id parts told sent,
      Exchanged address uploadId id size 1 (partCount size) parts told sent ∧
      parts ⊆ turns ∧ ∀ r ∈ requests turns, r.kind = .uploadPart → r ∈ requests parts := by
  have nothing (f : Failure) :
      Exchanged address "" 0 size 1 (partCount size) [] (.error f) [] := .stopped rfl
  rcases goes_bind.1 h with ⟨e, hcreate, rfl⟩ | ⟨uploadId, first, rest, rfl, hcreate, went⟩
  · -- No upload was opened.
    obtain ⟨answer, rfl, -⟩ := goes_create hcreate
    refine ⟨_, _, _, _, _, nothing e, List.nil_subset _, fun r hr hkind => ?_⟩
    cases List.mem_singleton.1 hr
    cases hkind
  obtain ⟨answer, rfl, -⟩ := goes_create hcreate
  -- Whatever is sent besides the parts is of another kind.
  have others {parts last : List Turn} (h : SendsOnly (fun r => r.kind ≠ .uploadPart) last) :
      ∀ r ∈ requests ([.send (.create address) answer] ++ (parts ++ last)), r.kind = .uploadPart →
        r ∈ requests parts := by
    intro r hr hkind
    rw [requests_append, requests_append] at hr
    rcases List.mem_append.1 hr with hr | hr
    · cases List.mem_singleton.1 hr
      cases hkind
    rcases List.mem_append.1 hr with hr | hr
    · exact hr
    · exact absurd hkind (h.of_mem_requests hr)
  have within {parts last : List Turn} :
      parts ⊆ [.send (.create address) answer] ++ (parts ++ last) :=
    fun t ht => List.mem_append_right _ (List.mem_append_left _ ht)
  have givenUp {f : Failure} {last : List Turn} {parts : Except Failure (List StoredPart)}
      (h : Goes (do abort address uploadId; throw f) last parts) :
      SendsOnly (fun r => r.kind ≠ .uploadPart) last := by
    obtain ⟨-, answer, quiet, rfl, silent⟩ := goes_giveUp h
    exact sendsOnly_cons_send.2 ⟨RequestKind.noConfusion, fun t ht r hr => (silent t ht r hr).elim⟩
  rcases goes_bind.1 went with ⟨e, hparts, rfl⟩ | ⟨listed, sending, last, rfl, hparts, hlast⟩
  · rcases goes_tryCatch.1 hparts with ⟨_, -, given⟩ | ⟨f, sending, last, rfl, hsent, hlast⟩
    · cases given
    · obtain ⟨id, sent, exchanged⟩ := goes_sendParts_cases hsent
      exact ⟨_, _, _, _, _, exchanged, within, others (givenUp hlast)⟩
  · rcases goes_tryCatch.1 hparts with ⟨_, hsent, -⟩ | ⟨f, sent, handled, rfl, -, hhandled⟩
    · obtain ⟨id, sent, exchanged⟩ := goes_sendParts_cases hsent
      obtain ⟨answer, rfl, -⟩ := goes_complete hlast
      exact ⟨_, _, _, _, _, exchanged, within,
        others (sendsOnly_cons_send.2 ⟨RequestKind.noConfusion, sendsOnly_nil⟩)⟩
    · cases (goes_giveUp hhandled).1

/-- **A part of a large file**: its number is one of those that are counted, and it has the bytes
that belong to it. -/
theorem Stores.part (h : Stores address path size turns result)
    (above : Defaults.largeFileThreshold < size) {r : Request} (hr : r ∈ requests turns)
    (hkind : r.kind = .uploadPart) :
    ∃ uploadId number body, r = .part address uploadId number body ∧ 1 ≤ number ∧
      number ≤ partCount size ∧ body.size = partLength size number := by
  obtain ⟨answer, rest, rfl, went⟩ := goes_sizeOf_bind.1 h.goes
  cases Option.some.inj h.sized
  rw [goes_orFail_bind] at went
  dsimp only at went
  rw [if_pos above] at went
  obtain ⟨uploadId, id, parts, told, sent, exchanged, within, complete⟩ := goes_large_parts went
  rw [requests_cons_of_silent rfl] at hr
  have hpart := complete r hr hkind
  rw [exchanged.sends] at hpart
  obtain ⟨⟨number, body⟩, hp, rfl⟩ := List.mem_map.1 hpart
  -- The numbers that were sent are the first ones, so they are among those that are counted.
  have counted : number ∈ List.range' 1 sent.length :=
    exchanged.numbers ▸ List.mem_map.2 ⟨_, hp, rfl⟩
  rw [List.mem_range'_1] at counted
  have few : number ≤ partCount size :=
    (Nat.lt_one_add_iff.1 counted.2).trans exchanged.few
  obtain ⟨long, hread⟩ := exchanged.bodies _ hp
  have short : body.size ≤ partLength size number :=
    h.truthful _ (List.mem_cons_of_mem _ (within hread))
  exact ⟨uploadId, number, body, rfl, counted.1, few, Nat.le_antisymm short long⟩

/-! ## §3. Uploads in which nothing fails. -/

/-- The turns of an upload of a file of zeros that is opened, sent and completed. -/
def faultlessTurns (address : Address) (path : Path) (size : Nat) : List Turn :=
  .size path (.ok size) :: .send (.create address) (.ok (some "upload-1")) ::
    .openFile path (.ok 0) :: (smoothTurns address "upload-1" 0 size 1 (partCount size) ++
      [.send (.completeMultipart address "upload-1" (smoothParts 1 (partCount size))) (.ok none)])

/-- An upload that is opened, and whose parts are all stored, can be completed. -/
theorem goes_large_of_sent {sent : List Turn} {listed : List StoredPart}
    (h : Goes (sendParts address uploadId path size) sent (.ok listed)) :
    Goes (large address path size)
      (.send (.create address) (.ok (some uploadId)) ::
        (sent ++ [.send (.completeMultipart address uploadId listed) (.ok none)])) (.ok ()) := by
  unfold large
  refine goes_bind.2 (.inr ⟨uploadId, [_], _, rfl, .send _ (.done _), ?_⟩)
  refine goes_bind.2 (.inr ⟨listed, sent, [_], rfl, ?_, ?_⟩)
  · exact goes_tryCatch.2 (.inl ⟨listed, h, rfl⟩)
  · exact goes_send_bind.2 ⟨.ok none, [], rfl, goes_pure.2 ⟨rfl, rfl⟩⟩

theorem goes_faultlessTurns (address : Address) (path : Path)
    (above : Defaults.largeFileThreshold < size) :
    Goes (Upload.file address path) (faultlessTurns address path size) (.ok ()) := by
  have parts := goes_smoothTurns address "upload-1" path 0 size 1 (partCount size)
  unfold faultlessTurns
  -- That there are parts is all that matters, and the number of them is not to be computed.
  generalize smoothTurns address "upload-1" 0 size 1 (partCount size) = sent at parts ⊢
  generalize smoothParts 1 (partCount size) = listed at parts ⊢
  have sending : Goes (sendParts address "upload-1" path size) (.openFile path (.ok 0) :: sent)
      (.ok listed) :=
    goes_openFile_bind.2 ⟨_, _, rfl, goes_orFail_bind.2 parts⟩
  refine goes_sizeOf_bind.2 ⟨.ok size, _, rfl, goes_orFail_bind.2 ?_⟩
  dsimp only
  rw [if_pos above, ← List.cons_append]
  exact goes_large_of_sent sending

theorem atMostAsked_smoothTurns :
    ∀ t ∈ smoothTurns address uploadId id size number left, t.AtMostAsked := by
  induction left generalizing number with
  | zero => exact fun t ht => absurd ht List.not_mem_nil
  | succ left ih =>
    intro t ht
    rcases List.mem_cons.1 ht with rfl | ht
    · show (zeros (partLength size number)).size ≤ partLength size number
      rw [size_zeros]
    rcases List.mem_cons.1 ht with rfl | ht
    · trivial
    · exact ih t ht

theorem stores_faultlessTurns (address : Address) (path : Path)
    (above : Defaults.largeFileThreshold < size) :
    Stores address path size (faultlessTurns address path size) (.ok ()) := by
  refine ⟨goes_faultlessTurns address path above, rfl, fun t ht => ?_⟩
  rcases List.mem_cons.1 ht with rfl | ht
  · trivial
  rcases List.mem_cons.1 ht with rfl | ht
  · trivial
  rcases List.mem_cons.1 ht with rfl | ht
  · trivial
  rcases List.mem_append.1 ht with ht | ht
  · exact atMostAsked_smoothTurns t ht
  · cases List.mem_singleton.1 ht
    trivial

/-- Each part that is left is sent. -/
theorem part_mem_smoothTurns {n : Nat} (h : number ≤ n) (counted : n < number + left) :
    .part address uploadId n (zeros (partLength size n))
      ∈ requests (smoothTurns address uploadId id size number left) := by
  induction left generalizing number with
  | zero => omega
  | succ left ih =>
    unfold smoothTurns
    dsimp only
    rw [requests_cons_of_silent rfl, requests_cons_send]
    by_cases here : n = number
    · subst here
      exact List.mem_cons_self
    · exact List.mem_cons_of_mem _ (ih (by omega) (by omega))

/-- **The last part of a faultless upload** is sent, whatever its number. -/
theorem lastPart_mem_faultlessTurns (address : Address) (path : Path) (size : Nat) :
    .part address "upload-1" (partCount size) (zeros (partLength size (partCount size)))
      ∈ requests (faultlessTurns address path size) := by
  have positive : 1 ≤ partCount size := Nat.le_max_left 1 _
  have last : partCount size < 1 + partCount size := Nat.lt_one_add_iff.2 (Nat.le_refl _)
  unfold faultlessTurns
  rw [requests_cons_of_silent rfl, requests_cons_send, requests_cons_of_silent rfl, requests_append]
  exact List.mem_cons_of_mem _ (List.mem_append_left _ (part_mem_smoothTurns positive last))

/-! ## §4. The law. -/

theorem partCount_le_iff {size : Nat} : partCount size ≤ 10000 ↔ size ≤ 83886080000 := by
  unfold partCount Defaults.partSize
  omega

/-- **The lengths of all parts are allowed**, and their numbers are allowed exactly for files of
up to 83,886,080,000 bytes: that are 10,000 full parts. -/
theorem parts_within_limits (size : Nat) (above : Defaults.largeFileThreshold < size) :
    (∀ address path turns result, Stores address path size turns result →
      ∀ r ∈ requests turns, r.LengthAllowed (partCount size)) ∧
    ((∀ address path turns result, Stores address path size turns result →
        ∀ r ∈ requests turns, r.NumberAllowed) ↔ size ≤ 83886080000) := by
  refine ⟨?lengths, ?few, ?numbers⟩
  case lengths =>
    intro address path turns result stores r hr
    by_cases hkind : r.kind = .uploadPart
    · obtain ⟨uploadId, number, body, rfl, positive, counted, hsize⟩ := stores.part above hr hkind
      show (number < partCount size → 5 * 2 ^ 20 ≤ body.size) ∧ body.size ≤ 5 * 2 ^ 30
      rw [hsize]
      refine ⟨fun before => ?_, partLength_le.trans (by decide)⟩
      rw [partLength_of_lt positive before]
      decide
    · exact Request.lengthAllowed_of_ne hkind _
  case few =>
    -- A faultless upload sends as many parts as are counted.
    intro allowed
    have last := allowed sampleAddress (Path.ofString "venmo_send.zkey") _ _
      (stores_faultlessTurns _ _ above) _ (lastPart_mem_faultlessTurns _ _ size)
    exact partCount_le_iff.1 last.2
  case numbers =>
    intro few address path turns result stores r hr
    by_cases hkind : r.kind = .uploadPart
    · obtain ⟨uploadId, number, body, rfl, positive, counted, -⟩ := stores.part above hr hkind
      exact ⟨positive, counted.trans (partCount_le_iff.2 few)⟩
    · exact Request.numberAllowed_of_ne hkind

/-- The file of the examples is stored within the bounds. -/
theorem sample_within_limits :
    Defaults.largeFileThreshold < sampleSize ∧
    Stores sampleAddress (Path.ofString "venmo_send.zkey") sampleSize
      (faultlessTurns sampleAddress (Path.ofString "venmo_send.zkey") sampleSize) (.ok ()) ∧
    ∀ r ∈ requests (faultlessTurns sampleAddress (Path.ofString "venmo_send.zkey") sampleSize),
      r.LengthAllowed 7 ∧ r.NumberAllowed := by
  have above : Defaults.largeFileThreshold < sampleSize := by decide
  have few : sampleSize ≤ 83886080000 := by decide
  have counted : partCount sampleSize = 7 := by decide
  have stores := stores_faultlessTurns sampleAddress (Path.ofString "venmo_send.zkey") above
  obtain ⟨lengths, numbers⟩ := parts_within_limits sampleSize above
  refine ⟨above, stores, fun r hr => ⟨?_, ?_⟩⟩
  · exact counted ▸ lengths _ _ _ _ stores r hr
  · exact numbers.2 few _ _ _ _ stores r hr

/-- **One byte more than 10,000 parts hold**: a file that a service could store as one object is
sent in 10,001 parts, though nothing else is wrong with the upload. -/
theorem too_many_parts :
    Defaults.largeFileThreshold < 83886080001 ∧ 83886080001 ≤ 5 * 2 ^ 40 ∧
    ∃ turns, Stores sampleAddress (Path.ofString "venmo_send.zkey") 83886080001 turns (.ok ()) ∧
      ∃ r ∈ requests turns, ¬ r.NumberAllowed := by
  have above : Defaults.largeFileThreshold < 83886080001 := by decide
  have counted : partCount 83886080001 = 10001 := by decide
  refine ⟨above, by decide, _, stores_faultlessTurns _ _ above, _,
    lastPart_mem_faultlessTurns sampleAddress (Path.ofString "venmo_send.zkey") 83886080001, ?_⟩
  intro allowed
  have few : partCount 83886080001 ≤ 10000 := allowed.2
  rw [counted] at few
  exact absurd few (by decide)

end Upload
end ArtifactCourier.Store
