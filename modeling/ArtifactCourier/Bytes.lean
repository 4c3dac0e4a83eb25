/-
  ArtifactCourier.Bytes
  ──────────────────────────────────────
  **Strings of bytes.**

  Reading a byte that may not be there, comparing, making zeros, and cutting into pieces.

    • `sameBytes_iff` — the comparison holds of equal strings alone.
    • `size_zeros` — there are as many zeros as were asked for.
    • `joined_piecesFrom` — pieces make up what was cut, wherever it was cut.
-/

namespace ArtifactCourier

/-- A byte; zero behind the end. -/
def byteAt (data : ByteArray) (i : Nat) : UInt8 := if h : i < data.size then data[i] else 0

/-! ## §1. Comparing. -/

/-- Whether the first `n` bytes of two strings agree. -/
def sameBefore (a b : ByteArray) : (n : Nat) → Bool
  | 0 => true
  | n + 1 => byteAt a n == byteAt b n && sameBefore a b n

def sameBytes (a b : ByteArray) : Bool := a.size == b.size && sameBefore a b a.size

theorem sameBefore_iff {a b : ByteArray} {n : Nat} :
    sameBefore a b n = true ↔ ∀ i < n, byteAt a i = byteAt b i := by
  induction n with
  | zero => simp [sameBefore]
  | succ n ih =>
    simp only [sameBefore, Bool.and_eq_true, beq_iff_eq, ih]
    constructor
    · intro h i hi
      by_cases hn : i = n
      · rw [hn]
        exact h.1
      · exact h.2 i (by omega)
    · intro h
      exact ⟨h n (by omega), fun i hi => h i (by omega)⟩

/-- **Strings are the same if and only if they are equal.** -/
theorem sameBytes_iff {a b : ByteArray} : sameBytes a b = true ↔ a = b := by
  constructor
  · intro h
    simp only [sameBytes, Bool.and_eq_true, beq_iff_eq, sameBefore_iff] at h
    apply ByteArray.ext_getElem h.1
    intro i ha hb
    have hi := h.2 i ha
    simpa only [byteAt, ha, hb, dif_pos] using hi
  · intro h
    subst h
    simp [sameBytes, sameBefore_iff]

/-! ## §2. Zeros. -/

/-- `n` zero bytes, made by doubling. -/
def zeros (n : Nat) : ByteArray :=
  if n ≤ 1 then ByteArray.mk (Array.replicate n 0)
  else
    let half := zeros (n / 2)
    if n % 2 = 0 then half ++ half else half ++ half ++ ByteArray.mk #[0]

@[simp] theorem size_zeros (n : Nat) : (zeros n).size = n := by
  induction n using Nat.strongRecOn with
  | ind n ih =>
    unfold zeros
    split
    · simp [ByteArray.size]
    · have := ih (n / 2) (by omega)
      dsimp only
      split
      · simp only [ByteArray.size_append, this]
        omega
      · have one : (ByteArray.mk #[0]).size = 1 := rfl
        simp only [ByteArray.size_append, this, one]
        omega

/-! ## §3. Pieces. -/

/-- What pieces make up. -/
def joined (pieces : List ByteArray) : ByteArray := pieces.foldl (· ++ ·) ByteArray.empty

/-- The pieces of what stands from `offset` on, each of as many bytes as `length` tells of its
place, but at least one. -/
def piecesFrom (length : Nat → Nat) (data : ByteArray) (offset : Nat) : List ByteArray :=
  if offset < data.size then
    data.extract offset (offset + max 1 (length offset))
      :: piecesFrom length data (offset + max 1 (length offset))
  else []
termination_by data.size - offset

theorem foldl_append (seen : ByteArray) (pieces : List ByteArray) :
    pieces.foldl (· ++ ·) seen = seen ++ joined pieces := by
  induction pieces generalizing seen with
  | nil => exact ByteArray.append_empty.symm
  | cons piece pieces ih =>
    rw [joined, List.foldl_cons, List.foldl_cons, ih, ih, ByteArray.empty_append,
      ByteArray.append_assoc]

@[simp] theorem joined_nil : joined [] = ByteArray.empty := rfl

@[simp] theorem joined_cons (piece : ByteArray) (pieces : List ByteArray) :
    joined (piece :: pieces) = piece ++ joined pieces := by
  rw [joined, List.foldl_cons, foldl_append, ByteArray.empty_append]

@[simp] theorem joined_append (first second : List ByteArray) :
    joined (first ++ second) = joined first ++ joined second := by
  rw [joined, List.foldl_append, foldl_append]
  rfl

theorem extract_of_size_le {data : ByteArray} {i j : Nat} (h : data.size ≤ j) :
    data.extract i j = data.extract i data.size := by
  have whole : (data.extract 0 data.size).extract i j = data.extract i data.size := by
    rw [ByteArray.extract_extract, Nat.zero_add, Nat.zero_add, Nat.min_eq_right h]
  rwa [ByteArray.extract_zero_size] at whole

/-- **Pieces make up what was cut**, wherever it was cut. -/
theorem joined_piecesFrom (length : Nat → Nat) (data : ByteArray) (offset : Nat) :
    joined (piecesFrom length data offset) = data.extract offset data.size := by
  fun_induction piecesFrom length data offset with
  | case1 offset more ih =>
    rw [joined_cons, ih, ByteArray.extract_append_extract,
      Nat.min_eq_left (Nat.le_add_right offset _), extract_of_size_le (Nat.le_max_right _ _)]
  | case2 offset done =>
    rw [joined_nil]
    exact (ByteArray.extract_eq_empty_iff.2 (by omega)).symm

/-- How many bytes pieces have together. -/
def sizeOfPieces (pieces : List ByteArray) : Nat := pieces.foldl (fun n piece => n + piece.size) 0

/-- Pieces have as many bytes together as what they make up. -/
theorem sizeOfPieces_eq (pieces : List ByteArray) : sizeOfPieces pieces = (joined pieces).size := by
  have behind (n : Nat) :
      pieces.foldl (fun n piece => n + piece.size) n = n + (joined pieces).size := by
    induction pieces generalizing n with
    | nil => rfl
    | cons piece pieces ih =>
      rw [List.foldl_cons, ih, joined_cons, ByteArray.size_append, Nat.add_assoc]
  rw [sizeOfPieces, behind, Nat.zero_add]

end ArtifactCourier
