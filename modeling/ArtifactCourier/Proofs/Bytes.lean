/-
  ArtifactCourier.Proofs.Bytes
  ──────────────────────────────────────
  **Strings of bytes as lists.**

  Pieces of a byte string are easiest to speak about in a list, where what stands in front and
  behind can be dropped.
-/
import Mathlib.Data.List.Basic
import ArtifactCourier.Bytes

namespace ArtifactCourier

theorem toList_loop (data : ByteArray) (i : Nat) (reversed : List UInt8) :
    ByteArray.toList.loop data i reversed = reversed.reverse ++ data.data.toList.drop i := by
  fun_induction ByteArray.toList.loop data i reversed with
  | case1 i reversed inside ih =>
    have there : i < data.data.toList.length := by simpa using inside
    have byte : data.get! i = data.data.toList[i] := getElem!_pos data.data i inside
    rw [ih, List.drop_eq_getElem_cons there, byte]
    simp
  | case2 i reversed outside =>
    have nothing : data.data.toList.drop i = [] := List.drop_eq_nil_of_le (Nat.le_of_not_lt outside)
    rw [nothing, List.append_nil]

theorem toList_eq (data : ByteArray) : data.toList = data.data.toList := by
  rw [ByteArray.toList, toList_loop]
  rfl

theorem toList_inj {a b : ByteArray} : a.toList = b.toList ↔ a = b := by
  rw [toList_eq, toList_eq, Array.toList_inj, ByteArray.ext_iff]

@[simp] theorem length_toList (data : ByteArray) : data.toList.length = data.size := by
  rw [toList_eq]
  rfl

@[simp] theorem toList_append (a b : ByteArray) : (a ++ b).toList = a.toList ++ b.toList := by
  simp [toList_eq, ByteArray.data_append]

@[simp] theorem toList_toByteArray (bytes : List UInt8) : bytes.toByteArray.toList = bytes := by
  simp [toList_eq]

theorem toList_extract (data : ByteArray) (first width : Nat) :
    (data.extract first (first + width)).toList = (data.toList.drop first).take width := by
  simp [toList_eq, ByteArray.data_extract]

@[simp] theorem zeros_zero : zeros 0 = ByteArray.empty := ByteArray.size_eq_zero_iff.1 (size_zeros 0)

@[simp] theorem toList_zeros (n : Nat) : (zeros n).toList = List.replicate n 0 := by
  induction n using Nat.strongRecOn with
  | ind n ih =>
    unfold zeros
    split
    case isTrue => simp [toList_eq]
    case isFalse many =>
      have half := ih (n / 2) (by omega)
      have one : (ByteArray.mk #[0]).toList = [0] := toList_eq _
      dsimp only
      split
      case isTrue even =>
        rw [toList_append, half, ← List.replicate_add]
        congr 1
        omega
      case isFalse odd =>
        have single : [(0 : UInt8)] = List.replicate 1 0 := rfl
        rw [toList_append, toList_append, half, one, single, ← List.replicate_add,
          ← List.replicate_add]
        congr 1
        omega

theorem zeros_add (m n : Nat) : zeros (m + n) = zeros m ++ zeros n := by
  rw [← toList_inj, toList_append, toList_zeros, toList_zeros, toList_zeros, List.replicate_add]

/-- What is cut out of zeros. -/
theorem extract_zeros (n first width : Nat) :
    (zeros n).extract first (first + width) = zeros (min width (n - first)) := by
  rw [← toList_inj, toList_extract, toList_zeros, toList_zeros, List.drop_replicate,
    List.take_replicate]

/-- A byte that is there. -/
theorem getElem?_eq_byteAt {data : ByteArray} {i : Nat} (hi : i < data.size) :
    data.toList[i]? = some (byteAt data i) := by
  have there : i < data.data.toList.length := by simpa using hi
  rw [toList_eq, List.getElem?_eq_getElem there, byteAt, dif_pos hi]
  rfl

/-- What stands in front of a piece, and behind it, does not show in the piece. -/
theorem extract_within {before piece after : ByteArray} {i j : Nat} (hj : j ≤ piece.size) :
    (before ++ piece ++ after).extract (before.size + i) (before.size + j) = piece.extract i j := by
  have nothing : after.extract (i - piece.size) (j - piece.size) = ByteArray.empty := by
    rw [Nat.sub_eq_zero_of_le hj]
    simp
  rw [ByteArray.append_assoc, ByteArray.extract_append_size_add, ByteArray.extract_append, nothing,
    ByteArray.append_empty]

end ArtifactCourier
