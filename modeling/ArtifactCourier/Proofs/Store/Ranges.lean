/-
  ArtifactCourier.Proofs.Store.Ranges
  ──────────────────────────────────────
  **The parts of a file tile it.**

  The number of parts and the bounds of each are computed apart from one another, on 64-bit
  words.  They agree at every length: where the count can be computed at all, so can the bounds
  of each part it counts, and these lie end to end from the first byte of the file to its last.

    • `partCount?_eq_none_iff`, `isLeast_partCount` — where the count is defined, and which it is,
    • `partRange?_eq` — no step leaves 64 bits as long as the part starts inside the file,
    • `Tiles` — ranges that lie end to end; `tiles_ranges` — those of the parts do,
    • `goes_sendPartsFrom_cases` — what is read for the parts, and what is sent,
    • `parts_tile` — the law.
-/
import ArtifactCourier.Proofs.Bytes
import ArtifactCourier.Proofs.Store.Discipline

namespace ArtifactCourier.Store

/-! ## §1. The count on words. -/

/-- The sum does not leave 64 bits, so the count is the one of numbers of any size. -/
theorem partCount?_of_le {size : Nat} (h : size + Defaults.partSize ≤ maxWord) :
    partCount? size = some (partCount size) := by
  have positive : 1 ≤ size + Defaults.partSize := by
    unfold Defaults.partSize
    omega
  unfold partCount?
  rw [Word.add?_of_le h, Option.bind_eq_bind, Option.bind_some, Word.sub?_of_le positive]
  rfl

theorem partCount?_of_lt {size : Nat} (h : maxWord < size + Defaults.partSize) :
    partCount? size = none := by
  unfold partCount?
  rw [Word.add?_of_lt h]
  rfl

theorem partCount?_eq_none_iff {size : Nat} :
    partCount? size = none ↔ maxWord < size + Defaults.partSize := by
  by_cases h : size + Defaults.partSize ≤ maxWord
  · simp [partCount?_of_le h, h]
  · simp [partCount?_of_lt (Nat.lt_of_not_le h), Nat.lt_of_not_le h]

theorem partCount?_eq_some_iff {size count : Nat} :
    partCount? size = some count ↔ size + Defaults.partSize ≤ maxWord ∧ partCount size = count := by
  by_cases h : size + Defaults.partSize ≤ maxWord
  · simp [partCount?_of_le h, h]
  · simp [partCount?_of_lt (Nat.lt_of_not_le h), h]

/-- Each part starts before the end of the file, the first one of an empty file apart. -/
theorem partStart_le {size number : Nat} (h : number ≤ partCount size) :
    partStart number ≤ size := by
  unfold partStart
  unfold partCount Defaults.partSize at *
  omega

theorem partStart_le_succ (number : Nat) : partStart number ≤ partStart (number + 1) := by
  unfold partStart Defaults.partSize
  omega

theorem partStart_lt {size number : Nat} (h : number ≤ partCount size) (hsize : 0 < size) :
    partStart number < size := by
  unfold partStart
  unfold partCount Defaults.partSize at *
  omega

/-- **The count is the least** that is enough for the file. -/
theorem isLeast_partCount (size : Nat) :
    IsLeast {count | 1 ≤ count ∧ size ≤ count * Defaults.partSize} (partCount size) := by
  refine ⟨⟨Nat.le_max_left 1 _, size_le_partCount_mul size⟩, ?_⟩
  rintro count ⟨positive, enough⟩
  -- With fewer parts, the last one would start where the file has ended.
  by_contra fewer
  have inside : partStart (count + 1) ≤ size := partStart_le (by omega)
  unfold partStart at inside
  unfold partCount Defaults.partSize at *
  omega

/-! ## §2. Ranges. -/

/-- **No step on words leaves 64 bits** for a part that starts inside the file. -/
theorem partRange?_eq {size number : Nat} (positive : 1 ≤ number) (inside : partStart number ≤ size)
    (fits : size + Defaults.partSize ≤ maxWord) :
    partRange? size number = some (partRange size number) := by
  unfold partStart at inside
  -- A part reaches at most its own size beyond its start.
  have further :
      number * Defaults.partSize = (number - 1) * Defaults.partSize + Defaults.partSize := by
    rw [← Nat.succ_mul, Nat.succ_eq_add_one, Nat.sub_add_cancel positive]
  have start : (number - 1) * Defaults.partSize ≤ maxWord :=
    inside.trans ((Nat.le_add_right _ _).trans fits)
  have reach : number * Defaults.partSize ≤ maxWord :=
    further.le.trans ((Nat.add_le_add_right inside _).trans fits)
  have order : (number - 1) * Defaults.partSize ≤ min (number * Defaults.partSize) size :=
    Nat.le_min.2 ⟨(Nat.le_add_right _ _).trans further.ge, inside⟩
  unfold partRange?
  rw [Word.sub?_of_le positive, Option.bind_eq_bind, Option.bind_some, Word.mul?_of_le start,
    Option.bind_some, Word.mul?_of_le reach, Option.bind_some]
  dsimp only
  rw [Word.sub?_of_le order]
  rfl

/-- **Ranges that lie end to end** from `first` up to `last`: each starts where the one before it
stops, and its length is what lies between. -/
def Tiles : (first : Nat) → List PartRange → (last : Nat) → Prop
  | first, [], last => first = last
  | first, r :: rest, last =>
    r.start = first ∧ r.start ≤ r.stop ∧ r.length = r.stop - r.start ∧ Tiles r.stop rest last

namespace Tiles

variable {first last : Nat} {ranges : List PartRange}

theorem le (h : Tiles first ranges last) : first ≤ last := by
  induction ranges generalizing first with
  | nil => exact Nat.le_of_eq h
  | cons r rest ih =>
    obtain ⟨rfl, order, -, tiles⟩ := h
    exact order.trans (ih tiles)

theorem within (h : Tiles first ranges last) :
    ∀ r ∈ ranges, first ≤ r.start ∧ r.start ≤ r.stop ∧ r.stop ≤ last := by
  induction ranges generalizing first with
  | nil => exact fun r hr => absurd hr List.not_mem_nil
  | cons r rest ih =>
    obtain ⟨rfl, order, -, tiles⟩ := h
    intro other hother
    rcases List.mem_cons.1 hother with rfl | hother
    · exact ⟨Nat.le_refl _, order, tiles.le⟩
    · obtain ⟨after, inOrder, before⟩ := ih tiles other hother
      exact ⟨order.trans after, inOrder, before⟩

/-- Each range stops before any later one starts. -/
theorem ordered (h : Tiles first ranges last) :
    ranges.Pairwise fun r later => r.stop ≤ later.start := by
  induction ranges generalizing first with
  | nil => exact List.Pairwise.nil
  | cons r rest ih =>
    obtain ⟨rfl, -, -, tiles⟩ := h
    exact List.pairwise_cons.2 ⟨fun later hlater => (tiles.within later hlater).1, ih tiles⟩

/-- Nothing in between is left out, and nothing else is there. -/
theorem covers (h : Tiles first ranges last) (offset : Nat) :
    (∃ r ∈ ranges, r.start ≤ offset ∧ offset < r.stop) ↔ first ≤ offset ∧ offset < last := by
  constructor
  · rintro ⟨r, hr, from_, upTo⟩
    obtain ⟨after, -, before⟩ := h.within r hr
    omega
  · intro inside
    induction ranges generalizing first with
    | nil =>
      have empty : first = last := h
      omega
    | cons r rest ih =>
      obtain ⟨rfl, order, -, tiles⟩ := h
      by_cases here : offset < r.stop
      · exact ⟨r, List.mem_cons_self, inside.1, here⟩
      · obtain ⟨later, hlater, found⟩ := ih tiles ⟨by omega, inside.2⟩
        exact ⟨later, List.mem_cons_of_mem _ hlater, found⟩

/-- **What lies in the ranges, joined,** is what lies between the ends. -/
theorem joined {α : Type} (h : Tiles first ranges last) (items : List α) :
    ranges.flatMap (fun r => (items.drop r.start).take r.length)
      = (items.drop first).take (last - first) := by
  induction ranges generalizing first with
  | nil =>
    have empty : last - first = 0 := by
      have same : first = last := h
      omega
    rw [empty]
    rfl
  | cons r rest ih =>
    obtain ⟨rfl, order, width, tiles⟩ := h
    -- What is between the ends is the first range, and then what is behind it.
    have behind : last - r.start = r.length + (last - r.stop) := by
      have := tiles.le
      omega
    have stop : r.start + r.length = r.stop := by omega
    rw [List.flatMap_cons, ih tiles, behind, List.take_add, List.drop_drop, stop]

end Tiles

/-- The ranges of `left` parts from `number` on. -/
def ranges (size number left : Nat) : List PartRange :=
  (List.range' number left).map (partRange size)

/-- **The ranges of parts lie end to end**, from the start of the first one to the end of the
last one.  The induction is on how many parts there are behind the first one. -/
theorem tiles_ranges {size number left : Nat} (positive : 1 ≤ number)
    (inside : partStart (number + left) ≤ size) :
    Tiles (partStart number) (ranges size number (left + 1)) (partEnd size (number + left)) := by
  induction left generalizing number with
  | zero =>
    refine ⟨rfl, ?_, rfl, rfl⟩
    show partStart number ≤ partEnd size number
    unfold partEnd
    unfold partStart Defaults.partSize at *
    omega
  | succ left ih =>
    -- The next part starts inside the file too, so this one is a full one.
    have full : number * Defaults.partSize ≤ size :=
      (Nat.mul_le_mul_right _ (by omega)).trans inside
    have next : partEnd size number = partStart (number + 1) := partEnd_eq_partStart_succ full
    have place : number + (left + 1) = number + 1 + left := by omega
    rw [place] at inside ⊢
    refine ⟨rfl, ?_, rfl, ?_⟩
    · show partStart number ≤ partEnd size number
      rw [next]
      exact partStart_le_succ number
    · show Tiles (partEnd size number) (ranges size (number + 1) (left + 1)) _
      rw [next]
      exact ih (Nat.le_add_left 1 number) inside

theorem tiles_partCount (size : Nat) : Tiles 0 (ranges size 1 (partCount size)) size := by
  obtain ⟨left, hleft⟩ : ∃ left, partCount size = left + 1 :=
    ⟨partCount size - 1, (Nat.sub_add_cancel (Nat.le_max_left 1 _)).symm⟩
  have count : 1 + left = partCount size := by omega
  have inside : partStart (1 + left) ≤ size := partStart_le count.le
  have tiles := tiles_ranges (Nat.le_refl 1) inside
  rw [count, partEnd_partCount, ← hleft] at tiles
  simpa [partStart] using tiles

/-- **All bounds are computed within 64 bits** where the count is. -/
theorem mapM_partRange? {size number left : Nat} (positive : 1 ≤ number)
    (counted : number + left ≤ partCount size + 1) (fits : size + Defaults.partSize ≤ maxWord) :
    (List.range' number left).mapM (partRange? size) = some (ranges size number left) := by
  induction left generalizing number with
  | zero => rfl
  | succ left ih =>
    have inside : partStart number ≤ size := partStart_le (by omega)
    rw [List.range'_succ, List.mapM_cons, partRange?_eq positive inside fits,
      ih (Nat.le_add_left 1 number) (by omega)]
    rfl

/-- A part that is not the last is a full one. -/
theorem partLength_of_lt {size number : Nat} (positive : 1 ≤ number) (h : number < partCount size) :
    partLength size number = Defaults.partSize := by
  have next : partStart (number + 1) ≤ size := partStart_le h
  unfold partLength partEnd
  unfold partStart Defaults.partSize at *
  omega

theorem partLength_le {size number : Nat} : partLength size number ≤ Defaults.partSize := by
  unfold partLength partEnd partStart Defaults.partSize
  omega

theorem partLength_pos {size number : Nat} (positive : 1 ≤ number) (h : number ≤ partCount size)
    (hsize : 0 < size) : 0 < partLength size number := by
  have start : partStart number < size := partStart_lt h hsize
  unfold partLength partEnd
  unfold partStart Defaults.partSize at *
  omega

/-- **A file of `size` bytes is cut into `count` ranges**, none of them longer than a part. -/
structure Cut (size count : Nat) (cuts : List PartRange) : Prop where
  length : cuts.length = count
  /-- Each range starts where the one before it stops. -/
  adjacent : Tiles 0 cuts size
  /-- They are in order and have nothing in common. -/
  ordered : cuts.Pairwise fun r later => r.stop ≤ later.start
  /-- What is in one of them is in the file, and the other way round. -/
  covers : ∀ offset, (∃ r ∈ cuts, r.start ≤ offset ∧ offset < r.stop) ↔ offset < size
  /-- All but the last have the size of a part, and the last has something to send. -/
  sizes : ∃ full last, cuts = full ++ [last] ∧ (∀ r ∈ full, r.length = Defaults.partSize) ∧
    last.length ≤ Defaults.partSize ∧ (0 < size → 0 < last.length)

theorem cut_ranges (size : Nat) : Cut size (partCount size) (ranges size 1 (partCount size)) := by
  have tiles := tiles_partCount size
  refine ⟨?length, tiles, tiles.ordered, ?covers, ?sizes⟩
  case length => simp [ranges]
  case covers =>
    intro offset
    rw [tiles.covers]
    exact and_iff_right (Nat.zero_le offset)
  case sizes =>
    obtain ⟨left, hleft⟩ : ∃ left, partCount size = left + 1 :=
      ⟨partCount size - 1, (Nat.sub_add_cancel (Nat.le_max_left 1 _)).symm⟩
    refine ⟨ranges size 1 left, partRange size (1 + left), ?_, ?_, partLength_le, ?_⟩
    · rw [hleft, ranges, List.range'_1_concat, List.map_append]
      rfl
    · intro r hr
      obtain ⟨number, hnumber, rfl⟩ := List.mem_map.1 hr
      rw [List.mem_range'_1] at hnumber
      exact partLength_of_lt hnumber.1 (by omega)
    · exact partLength_pos (by omega) (by omega)

/-! ## §3. What is read for the parts, and what is sent. -/

/-- Where a turn reads a file, and how much, if it does. -/
def Turn.read? : Turn → Option (Nat × Nat)
  | readAt _ offset length _ => some (offset, length)
  | _ => none

/-- If a turn reads a part, it gets the bytes that `data` has there. -/
def Turn.ReadsFrom (data : ByteArray) : Turn → Prop
  | readAt _ offset length (.ok body) => body = data.extract offset (offset + length)
  | _ => True

/-- The bytes that a request carries. -/
def Request.bytes (r : Request) : List UInt8 := (r.body?.map (·.2.toList)).getD []

namespace Upload

variable {address : Address} {uploadId : String} {path : Path} {id : NodeId}
  {size number left : Nat} {turns : List Turn} {result : Except Failure (List StoredPart)}

/-- **What was exchanged for `left` parts from `number` on**: which were sent, with their numbers
and their bytes. -/
structure Exchanged (address : Address) (uploadId : String) (id : NodeId) (size number left : Nat)
    (turns : List Turn) (result : Except Failure (List StoredPart))
    (sent : List (Nat × ByteArray)) : Prop where
  sends : requests turns = sent.map fun p => .part address uploadId p.1 p.2
  numbers : sent.map (·.1) = List.range' number sent.length
  few : sent.length ≤ left
  /-- What is sent was read before, in full. -/
  bodies : ∀ p ∈ sent, partLength size p.1 ≤ p.2.size ∧
    .readAt id (partStart p.1) (partLength size p.1) (.ok p.2) ∈ turns
  /-- Where nothing failed, all parts were read and sent. -/
  all : ∀ listed, result = .ok listed → sent.length = left ∧
    turns.filterMap Turn.read? = (ranges size number left).map fun r => (r.start, r.length)

namespace Exchanged

variable {sent : List (Nat × ByteArray)}

/-- Something failed before a part was sent. -/
theorem stopped {f : Failure} (silent : requests turns = []) :
    Exchanged address uploadId id size number left turns (.error f) [] :=
  ⟨silent, rfl, Nat.zero_le _, fun p hp => absurd hp List.not_mem_nil,
    by intro _ given; cases given⟩

/-- A part is read and sent before the others. -/
theorem next {result' : Except Failure (List StoredPart)} {body : ByteArray}
    (h : Exchanged address uploadId id size (number + 1) left turns result sent)
    (full : partLength size number ≤ body.size) (answer : Except ServiceError Reply)
    (hresult : ∀ listed, result' = .ok listed → ∃ rest, result = .ok rest) :
    Exchanged address uploadId id size number (left + 1)
      (.readAt id (partStart number) (partLength size number) (.ok body) ::
        .send (.part address uploadId number body) answer :: turns)
      result' ((number, body) :: sent) := by
  refine ⟨?sends, ?numbers, Nat.succ_le_succ h.few, ?bodies, ?all⟩
  case sends =>
    rw [requests_cons_of_silent rfl, requests_cons_send, h.sends]
    rfl
  case numbers =>
    rw [List.map_cons, h.numbers]
    rfl
  case bodies =>
    intro p hp
    rcases List.mem_cons.1 hp with rfl | hp
    · exact ⟨full, List.mem_cons_self⟩
    · obtain ⟨long, hread⟩ := h.bodies p hp
      exact ⟨long, List.mem_cons_of_mem _ (List.mem_cons_of_mem _ hread)⟩
  case all =>
    intro listed hlisted
    obtain ⟨rest, hrest⟩ := hresult listed hlisted
    obtain ⟨hlength, hreads⟩ := h.all rest hrest
    refine ⟨congrArg (· + 1) hlength, ?_⟩
    show (partStart number, partLength size number) :: turns.filterMap Turn.read? = _
    rw [hreads]
    rfl

/-- A turn that neither reads nor sends changes nothing. -/
theorem after {t : Turn} (h : Exchanged address uploadId id size number left turns result sent)
    (silent : t.request? = none) (blind : t.read? = none) :
    Exchanged address uploadId id size number left (t :: turns) result sent := by
  refine ⟨?_, h.numbers, h.few, ?_, ?_⟩
  · rw [requests_cons_of_silent silent]
    exact h.sends
  · intro p hp
    obtain ⟨long, hread⟩ := h.bodies p hp
    exact ⟨long, List.mem_cons_of_mem _ hread⟩
  · intro listed hlisted
    rw [List.filterMap_cons_none blind]
    exact h.all listed hlisted

end Exchanged

/-- A part is read in full, or the turn that should have read it is the last. -/
theorem goes_readPart_cases {result : Except Failure ByteArray}
    (h : Goes (readPart path id size number) turns result) :
    (∃ answer f, turns = [.readAt id (partStart number) (partLength size number) answer] ∧
      result = .error f) ∨
    ∃ body, turns = [.readAt id (partStart number) (partLength size number) (.ok body)] ∧
      result = .ok body ∧ partLength size number ≤ body.size := by
  obtain ⟨answer, rest, rfl, went⟩ := goes_readAt_bind.1 h
  rw [goes_orFail_bind] at went
  rcases answer with e | body
  · obtain ⟨rfl, rfl⟩ := went
    exact .inl ⟨_, _, rfl, rfl⟩
  dsimp only at went
  by_cases short : body.size < partLength size number
  · rw [if_pos short] at went
    obtain ⟨rfl, rfl⟩ := goes_throw.1 went
    exact .inl ⟨_, _, rfl, rfl⟩
  · rw [if_neg short] at went
    obtain ⟨rfl, rfl⟩ := goes_pure.1 went
    exact .inr ⟨body, rfl, rfl, Nat.le_of_not_lt short⟩

/-- **The parts of a file, from any part on.**  The induction is on how many are left. -/
theorem goes_sendPartsFrom_cases
    (h : Goes (sendPartsFrom address uploadId path id size number left) turns result) :
    ∃ sent, Exchanged address uploadId id size number left turns result sent := by
  induction left generalizing number turns result with
  | zero =>
    obtain ⟨rfl, rfl⟩ := goes_pure.1 h
    exact ⟨[], rfl, rfl, Nat.le_refl 0, fun p hp => absurd hp List.not_mem_nil,
      fun _ _ => ⟨rfl, rfl⟩⟩
  | succ left ih =>
    unfold sendPartsFrom at h
    rcases goes_bind.1 h with ⟨e, hread, rfl⟩ | ⟨body, reading, rest, rfl, hread, went⟩
    · -- The part was not read, so nothing is sent.
      obtain ⟨answer, f, rfl, -⟩ | ⟨_, -, given, -⟩ := goes_readPart_cases hread
      · exact ⟨[], .stopped rfl⟩
      · cases given
    obtain ⟨_, _, -, given⟩ | ⟨_, rfl, given, full⟩ := goes_readPart_cases hread
    · cases given
    cases given
    rcases goes_bind.1 went with ⟨e, hsend, rfl⟩ | ⟨stored, sending, rest, rfl, hsend, goesOn⟩
    · -- The part was refused, so it is the last one that was sent.
      obtain ⟨answer, rfl, -⟩ := turns_of_sendPart path hsend
      exact ⟨_, Exchanged.next (.stopped (f := e) requests_nil) full answer
        (by intro _ given; cases given)⟩
    obtain ⟨answer, rfl, -⟩ := turns_of_sendPart path hsend
    rcases goes_bind.1 goesOn with ⟨e, hrest, rfl⟩ | ⟨others, turns, last, rfl, hrest, hpure⟩
    · obtain ⟨sent, exchanged⟩ := ih hrest
      exact ⟨_, exchanged.next full answer (by intro _ given; cases given)⟩
    · obtain ⟨rfl, rfl⟩ := goes_pure.1 hpure
      obtain ⟨sent, exchanged⟩ := ih hrest
      rw [List.append_nil]
      exact ⟨_, exchanged.next full answer fun _ _ => ⟨others, rfl⟩⟩

/-- The parts of a file, from its opening on. -/
theorem goes_sendParts_cases (h : Goes (sendParts address uploadId path size) turns result) :
    ∃ id sent, Exchanged address uploadId id size 1 (partCount size) turns result sent := by
  obtain ⟨answer, rest, rfl, went⟩ := goes_openFile_bind.1 h
  rw [goes_orFail_bind] at went
  rcases answer with e | id
  · obtain ⟨rfl, rfl⟩ := went
    exact ⟨0, [], .stopped rfl⟩
  · obtain ⟨sent, exchanged⟩ := goes_sendPartsFrom_cases went
    exact ⟨id, sent, exchanged.after rfl rfl⟩

/-- **What the parts carry, joined, is what the file holds there.** -/
theorem Exchanged.joined {sent : List (Nat × ByteArray)} {data : ByteArray}
    (h : Exchanged address uploadId id size number left turns result sent)
    (reads : ∀ t ∈ turns, t.ReadsFrom data) :
    (requests turns).flatMap Request.bytes
      = (ranges size number sent.length).flatMap
          fun r => (data.toList.drop r.start).take r.length := by
  rw [h.sends, ranges, ← h.numbers, List.map_map, List.flatMap_map, List.flatMap_map]
  refine List.flatMap_congr fun p hp => ?_
  obtain ⟨-, hread⟩ := h.bodies p hp
  have body : p.2 = data.extract (partStart p.1) (partStart p.1 + partLength size p.1) :=
    reads _ hread
  show p.2.toList = (data.toList.drop (partStart p.1)).take (partLength size p.1)
  rw [body, toList_extract]

/-! ## §4. The law. -/

/-- **The parts of a file tile it, and nothing overflows.**  The count is not defined exactly where
adding the size of a part leaves 64 bits, and otherwise it is the least that is enough.  Where it
is defined, so are the bounds of each part, and these cut the file.  If all parts are sent, then
the file is read range by range, and what is sent are its first `size` bytes. -/
theorem parts_tile (size : Nat) :
    (partCount? size = none ↔ size + 8388608 > 2 ^ 64 - 1) ∧
    ∀ count, partCount? size = some count →
      IsLeast {k | 1 ≤ k ∧ size ≤ k * Defaults.partSize} count ∧
      ∃ cuts, (List.range' 1 count).mapM (partRange? size) = some cuts ∧ Cut size count cuts ∧
        ∀ address uploadId path turns listed,
          Goes (sendParts address uploadId path size) turns (.ok listed) →
          turns.filterMap Turn.read? = cuts.map (fun r => (r.start, r.length)) ∧
          ∀ data : ByteArray, (∀ t ∈ turns, t.ReadsFrom data) →
            (requests turns).flatMap Request.bytes = data.toList.take size := by
  refine ⟨partCount?_eq_none_iff, ?_⟩
  intro count hcount
  obtain ⟨fits, rfl⟩ := partCount?_eq_some_iff.1 hcount
  have counted : 1 + partCount size ≤ partCount size + 1 := (Nat.add_comm 1 _).le
  have computed := mapM_partRange? (Nat.le_refl 1) counted fits
  refine ⟨isLeast_partCount size, _, computed, cut_ranges size, ?_⟩
  intro address uploadId path turns listed went
  obtain ⟨id, sent, exchanged⟩ := goes_sendParts_cases went
  obtain ⟨hlength, hreads⟩ := exchanged.all listed rfl
  refine ⟨hreads, fun data reads => ?_⟩
  rw [exchanged.joined reads, hlength, (tiles_partCount size).joined]
  rfl

/-- Parts that are read as zeros are read from a file of zeros. -/
theorem readsFrom_smoothTurns (counted : number + left ≤ partCount size + 1)
    (positive : 1 ≤ number) :
    ∀ t ∈ smoothTurns address uploadId id size number left, t.ReadsFrom (zeros size) := by
  induction left generalizing number with
  | zero => exact fun t ht => absurd ht List.not_mem_nil
  | succ left ih =>
    intro t ht
    rcases List.mem_cons.1 ht with rfl | ht
    · have start : partStart number ≤ size := partStart_le (by omega)
      have inside : partLength size number ≤ size - partStart number := by
        unfold partLength partEnd
        omega
      have cut := extract_zeros size (partStart number) (partLength size number)
      rw [Nat.min_eq_left inside] at cut
      exact cut.symm
    rcases List.mem_cons.1 ht with rfl | ht
    · trivial
    · exact ih (by omega) (Nat.le_add_left 1 number) t ht

/-- The file of the examples is cut into seven ranges, and all of it is sent. -/
theorem sample_parts_tile :
    partCount? sampleSize = some 7 ∧
    ∃ cuts turns listed, Cut sampleSize 7 cuts ∧
      Goes (sendParts sampleAddress "upload-1" (Path.ofString "venmo_send.zkey") sampleSize) turns
        (.ok listed) ∧
      turns.filterMap Turn.read? = cuts.map (fun r => (r.start, r.length)) ∧
      (requests turns).flatMap Request.bytes = (zeros sampleSize).toList.take sampleSize := by
  have counted : partCount? sampleSize = some 7 := by decide
  obtain ⟨-, cuts, -, cut, law⟩ := (parts_tile sampleSize).2 7 counted
  have went : Goes
      (sendParts sampleAddress "upload-1" (Path.ofString "venmo_send.zkey") sampleSize)
      (.openFile (Path.ofString "venmo_send.zkey") (.ok 0) ::
        smoothTurns sampleAddress "upload-1" 0 sampleSize 1 (partCount sampleSize))
      (.ok (smoothParts 1 (partCount sampleSize))) :=
    goes_openFile_bind.2 ⟨_, _, rfl, goes_orFail_bind.2 (goes_smoothTurns _ _ _ _ _ _ _)⟩
  obtain ⟨reads, bytes⟩ := law _ _ _ _ _ went
  refine ⟨counted, cuts, _, _, cut, went, reads, bytes (zeros sampleSize) fun t ht => ?_⟩
  rcases List.mem_cons.1 ht with rfl | ht
  · trivial
  · exact readsFrom_smoothTurns (Nat.add_comm 1 _).le (Nat.le_refl 1) t ht

end Upload
end ArtifactCourier.Store
