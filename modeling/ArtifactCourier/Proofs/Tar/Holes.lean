/-
  ArtifactCourier.Proofs.Tar.Holes
  ──────────────────────────────────────
  **A file with holes is put together again.**

  What is stored of a file is written without the holes, with a list of where it belongs.  An
  extractor puts each stretch where it belongs and zeros between, and more zeros behind them up
  to the size of the file (`filledTo`).  The induction is on the stretches of the file
  (`spread_extentsFrom`): empty ones are not listed, and those that meet are listed as one, so
  that there are fewer in the list than in the file.

    • `addExtent_within`, `extentsFrom_within` — nothing is listed behind the end,
    • `spread_sparseMap` — the list of a file gives the file back.
-/
import ArtifactCourier.Proofs.Tar.Extents

namespace ArtifactCourier

/-! ## §1. What is stored. -/

theorem Stretch.size_stored_le (s : Stretch) : s.stored.size ≤ s.size := by
  cases s with
  | data bytes => exact Nat.le_refl _
  | hole length => exact Nat.zero_le _

/-- No more is stored of a file than it has. -/
theorem Content.size_stored_le (c : Content) : c.stored.size ≤ c.size := by
  obtain ⟨stretches⟩ := c
  induction stretches with
  | nil => exact Nat.le_refl _
  | cons s rest ih =>
    rw [stored, List.map_cons, joined_cons, ByteArray.size_append]
    exact Nat.add_le_add s.size_stored_le ih

namespace Tar

/-! ## §2. The list of stretches. -/

/-- A stretch that is listed as one in front of others, or as one with the first of them. -/
theorem addExtent_of_empty {e : Extent} (empty : e.length = 0) (extents : List Extent) :
    addExtent e extents = extents := by
  cases extents with
  | nil => rw [addExtent, if_pos empty]
  | cons next rest => rw [addExtent, if_pos empty]

theorem addExtent_within {e : Extent} {extents : List Extent} {bound : Nat}
    (first : e.offset + e.length ≤ bound) (later : ∀ d ∈ extents, d.offset + d.length ≤ bound) :
    ∀ d ∈ addExtent e extents, d.offset + d.length ≤ bound := by
  cases extents with
  | nil =>
    rw [addExtent]
    split
    · simp
    · simpa using first
  | cons next rest =>
    obtain ⟨second, others⟩ := List.forall_mem_cons.1 later
    rw [addExtent]
    split
    · exact later
    · split
      · next meet =>
        refine List.forall_mem_cons.2 ⟨?_, others⟩
        dsimp only
        omega
      · exact List.forall_mem_cons.2 ⟨first, later⟩

/-- **Nothing is listed behind the end of the stretches.** -/
theorem extentsFrom_within (offset : Nat) (stretches : List Stretch) :
    ∀ e ∈ extentsFrom offset stretches, e.offset + e.length ≤ offset + Content.lengthOf stretches := by
  induction stretches generalizing offset with
  | nil => simp [extentsFrom]
  | cons s rest ih =>
    have behind := ih (offset + s.size)
    rw [Nat.add_assoc] at behind
    cases s with
    | data bytes =>
      refine addExtent_within ?_ behind
      rw [Content.lengthOf, ← Nat.add_assoc]
      exact Nat.le_add_right _ _
    | hole length => exact behind

/-! ## §3. Putting together. -/

/-- A string with zeros behind it up to a size. -/
def filledTo (size : Nat) (out : ByteArray) : ByteArray := out ++ zeros (size - out.size)

theorem size_filledTo {size : Nat} {out : ByteArray} (h : out.size ≤ size) :
    (filledTo size out).size = size := by
  rw [filledTo, ByteArray.size_append, size_zeros]
  omega

theorem filledTo_self {size : Nat} {out : ByteArray} (h : out.size = size) :
    filledTo size out = out := by
  rw [filledTo, h, Nat.sub_self, zeros_zero, ByteArray.append_empty]

theorem filledTo_add {size : Nat} {out : ByteArray} (h : out.size ≤ size) (more : Nat) :
    filledTo (size + more) out = filledTo size out ++ zeros more := by
  have count : size + more - out.size = size - out.size + more := by omega
  rw [filledTo, filledTo, count, zeros_add, ByteArray.append_assoc]

variable {data out : ByteArray} {taken : Nat}

/-- A stretch is put where it belongs. -/
theorem spread_cons (e : Extent) (rest : List Extent) :
    spread data out taken (e :: rest)
      = spread data (filledTo e.offset out ++ data.extract taken (taken + e.length))
          (taken + e.length) rest := rfl

/-- **Stretches that meet may be listed as one.** -/
theorem spread_addExtent {e : Extent} (some : e.length ≠ 0) (behind : out.size ≤ e.offset)
    (there : taken + e.length ≤ data.size) (extents : List Extent) :
    spread data out taken (addExtent e extents) = spread data out taken (e :: extents) := by
  cases extents with
  | nil => rw [addExtent, if_neg some]
  | cons next rest =>
    rw [addExtent, if_neg some]
    split
    · next meet =>
      have end_of_first :
          (filledTo e.offset out ++ data.extract taken (taken + e.length)).size = next.offset := by
        rw [ByteArray.size_append, size_filledTo behind, ByteArray.size_extract, meet]
        omega
      have both : data.extract taken (taken + e.length)
            ++ data.extract (taken + e.length) (taken + e.length + next.length)
          = data.extract taken (taken + (e.length + next.length)) := by
        rw [ByteArray.extract_append_extract]
        congr 1 <;> omega
      rw [spread_cons, spread_cons, spread_cons, filledTo_self end_of_first,
        ByteArray.append_assoc, both, Nat.add_assoc]
    · rfl

/-- An empty stretch behind others says where the file ends. -/
theorem spread_concat_empty (size : Nat) (extents : List Extent) :
    spread data out taken (extents ++ [⟨size, 0⟩])
      = filledTo size (spread data out taken extents) := by
  induction extents generalizing out taken with
  | nil =>
    rw [List.nil_append, spread_cons]
    simp only [spread, Nat.add_zero, ByteArray.extract_same, ByteArray.append_empty]
  | cons e rest ih => rw [List.cons_append, spread_cons, spread_cons, ih]

/-- **What is stored of some stretches is put together to what they read as.** -/
theorem spread_extentsFrom {stretches : List Stretch} {before : ByteArray} {offset : Nat}
    (whole : data = before ++ joined (stretches.map Stretch.stored)) (behind : out.size ≤ offset) :
    filledTo (offset + Content.lengthOf stretches)
        (spread data out before.size (extentsFrom offset stretches))
      = filledTo offset out ++ joined (stretches.map Stretch.bytes) := by
  induction stretches generalizing out before offset with
  | nil => exact ByteArray.append_empty.symm
  | cons s rest ih =>
    rw [List.map_cons, joined_cons] at whole
    rw [List.map_cons, joined_cons, Content.lengthOf, ← Nat.add_assoc, ← ByteArray.append_assoc]
    cases s with
    | hole length =>
      rw [Stretch.stored, ByteArray.empty_append] at whole
      rw [extentsFrom, Stretch.size, Stretch.bytes, ← filledTo_add behind]
      exact ih whole (Nat.le_trans behind (Nat.le_add_right _ _))
    | data bytes =>
      rw [Stretch.stored, ← ByteArray.append_assoc] at whole
      rw [extentsFrom, Stretch.size, Stretch.bytes]
      by_cases empty : bytes.size = 0
      · -- nothing is stored, and nothing is listed
        obtain rfl : bytes = ByteArray.empty := ByteArray.size_eq_zero_iff.1 empty
        rw [ByteArray.append_empty] at whole ⊢
        rw [addExtent_of_empty rfl]
        exact ih whole behind
      · have there : before.size + bytes.size ≤ data.size := by
          rw [whole, ByteArray.size_append, ByteArray.size_append]
          exact Nat.le_add_right _ _
        have piece : data.extract before.size (before.size + bytes.size) = bytes := by
          rw [whole]
          have within := @extract_within before bytes (joined (rest.map Stretch.stored)) 0
            bytes.size (Nat.le_refl _)
          rwa [Nat.add_zero, ByteArray.extract_zero_size] at within
        have size : (filledTo offset out ++ bytes).size = offset + bytes.size := by
          rw [ByteArray.size_append, size_filledTo behind]
        have later := ih whole (Nat.le_of_eq size)
        rw [filledTo_self size, ByteArray.size_append] at later
        rw [spread_addExtent empty behind there, spread_cons, piece]
        exact later

/-- **The list of a file with holes gives the file back.** -/
theorem spread_sparseMap {c : Content} {map : SparseMap} (h : sparseMap? c = some map) :
    map.realSize = c.size ∧ (∀ e ∈ map.extents, e.offset + e.length ≤ c.size) ∧
      filledTo c.size (spread c.stored ByteArray.empty 0 map.extents) = c.bytes := by
  have within := extentsFrom_within 0 c.stretches
  rw [Nat.zero_add] at within
  have start : c.stored = ByteArray.empty ++ joined (c.stretches.map Stretch.stored) :=
    ByteArray.empty_append.symm
  have all : filledTo c.size (spread c.stored ByteArray.empty 0 (extentsFrom 0 c.stretches))
      = c.bytes := by
    have together := spread_extentsFrom start (Nat.le_of_eq ByteArray.size_empty)
    rw [Nat.zero_add, filledTo_self ByteArray.size_empty, ByteArray.empty_append] at together
    exact together
  unfold sparseMap? at h
  dsimp only at h
  split at h
  · cases h
  · split at h
    · cases h
      exact ⟨rfl, within, all⟩
    · cases h
      refine ⟨rfl, ?_, ?_⟩
      · refine List.forall_mem_append.2 ⟨within, ?_⟩
        simp
      · dsimp only
        rw [spread_concat_empty, all]
        exact filledTo_self c.size_bytes

end Tar
end ArtifactCourier
