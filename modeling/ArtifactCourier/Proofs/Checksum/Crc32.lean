/-
  ArtifactCourier.Proofs.Checksum.Crc32
  ──────────────────────────────────────
  **The table divides as the polynomial does.**

  The check value of a text is a remainder: bit by bit, the text is divided by a polynomial.
  The table takes eight bits at once.  That this comes to the same is because a step of the
  division is linear: the low byte of the remainder can be divided by itself, and the other
  bytes are only moved.

    • `shiftBit_xor` — a step of the division is linear,
    • `step_eq_divideByte` — the table takes the eight steps of a byte,
    • `updateFrom_append` — a text may come in pieces,
    • `ofBytes_eq_remainder` — the check value is the remainder of the division.
-/
import Mathlib.Data.Nat.Bitwise
import ArtifactCourier.Checksum.Crc32
import ArtifactCourier.Proofs.Bytes

namespace ArtifactCourier.Crc32

/-! ## §1. The division. -/

/-- Some steps of the division. -/
def divide : (steps : Nat) → UInt32 → UInt32
  | 0, r => r
  | steps + 1, r => divide steps (shiftBit r)

/-- The division goes on with a byte, the low bit first. -/
def divideByte (r : UInt32) (b : UInt8) : UInt32 := divide 8 (r ^^^ b.toUInt32)

/-- The remainder of a text, bit by bit.  It begins with all bits set and ends inverted. -/
def remainder (data : ByteArray) : UInt32 :=
  data.toList.foldl divideByte 0xFFFFFFFF ^^^ 0xFFFFFFFF

/-! ## §2. Linearity. -/

/-- What a step subtracts: the polynomial, if the bit that is taken out is set. -/
def subtracted (r : UInt32) : UInt32 := if r.toNat % 2 = 1 then polynomial else 0

theorem shiftBit_eq (r : UInt32) : shiftBit r = (r >>> 1) ^^^ subtracted r := by
  have bit : r &&& 1 = 1 ↔ r.toNat % 2 = 1 := by
    rw [← UInt32.toNat_inj, UInt32.toNat_and]
    exact iff_of_eq (congrArg (· = 1) (Nat.and_one_is_mod r.toNat))
  simp only [shiftBit, subtracted, bit]
  split
  · rfl
  · rw [UInt32.xor_zero]

theorem subtracted_xor (a b : UInt32) : subtracted (a ^^^ b) = subtracted a ^^^ subtracted b := by
  have parity : (a ^^^ b).toNat % 2 = (a.toNat + b.toNat) % 2 := by
    rw [UInt32.toNat_xor, Nat.xor_mod_two_eq]
  simp only [subtracted, parity]
  rcases Nat.mod_two_eq_zero_or_one a.toNat with ha | ha <;>
    rcases Nat.mod_two_eq_zero_or_one b.toNat with hb | hb <;>
    rw [Nat.add_mod, ha, hb] <;>
    decide

/-- **A step of the division is linear.** -/
theorem shiftBit_xor (a b : UInt32) : shiftBit (a ^^^ b) = shiftBit a ^^^ shiftBit b := by
  rw [shiftBit_eq, shiftBit_eq, shiftBit_eq, UInt32.shiftRight_xor, subtracted_xor]
  ac_rfl

theorem divide_xor (steps : Nat) (a b : UInt32) :
    divide steps (a ^^^ b) = divide steps a ^^^ divide steps b := by
  induction steps generalizing a b with
  | zero => rfl
  | succ steps ih => rw [divide, shiftBit_xor, ih, divide, divide]

/-- Where the low bits are zero, as many steps only move the others. -/
theorem toNat_divide {steps : Nat} {r : UInt32} {high : Nat} (h : r.toNat = 2 ^ steps * high) :
    (divide steps r).toNat = high := by
  induction steps generalizing r with
  | zero => simpa [divide] using h
  | succ steps ih =>
    rw [Nat.pow_succ, Nat.mul_comm _ 2, Nat.mul_assoc] at h
    have moved : (shiftBit r).toNat = r.toNat / 2 := by
      rw [shiftBit_eq, subtracted, if_neg (by omega), UInt32.xor_zero]
      simp [UInt32.toNat_shiftRight, Nat.shiftRight_eq_div_pow]
    apply ih
    omega

/-! ## §3. The table. -/

/-- The bytes of a remainder above the low one. -/
def high (r : UInt32) : UInt32 := (r >>> 8) <<< 8

theorem toNat_high (r : UInt32) : (high r).toNat = 2 ^ 8 * (r.toNat / 2 ^ 8) := by
  have fits : r.toNat < 2 ^ 32 := r.toNat_lt
  have eight : (8 : UInt32).toNat % 32 = 8 := rfl
  rw [high, UInt32.toNat_shiftLeft, UInt32.toNat_shiftRight, eight, Nat.shiftRight_eq_div_pow,
    Nat.shiftLeft_eq, Nat.mod_eq_of_lt (by omega), Nat.mul_comm]

theorem toNat_low (r : UInt32) : (r &&& 0xFF).toNat = r.toNat % 2 ^ 8 := by
  have mask : (0xFF : UInt32).toNat = 2 ^ 8 - 1 := rfl
  rw [UInt32.toNat_and, mask, Nat.and_two_pow_sub_one_eq_mod]

/-- A number's low bits and the others have no bit in common. -/
theorem mod_xor_mul_div (n k : Nat) : (n % 2 ^ k) ^^^ (2 ^ k * (n / 2 ^ k)) = n := by
  apply Nat.eq_of_testBit_eq
  intro i
  rw [Nat.testBit_xor, Nat.testBit_mod_two_pow, Nat.testBit_two_pow_mul, Nat.testBit_div_two_pow]
  rcases Nat.lt_or_ge i k with low | high
  · simp [low, Nat.not_le_of_lt low]
  · simp [high, Nat.not_lt_of_ge high, Nat.sub_add_cancel high]

/-- The low byte of a remainder, and the bytes above it. -/
theorem low_xor_high (r : UInt32) : (r &&& 0xFF) ^^^ high r = r := by
  rw [← UInt32.toNat_inj, UInt32.toNat_xor, toNat_low, toNat_high, mod_xor_mul_div]

theorem divide_high (r : UInt32) : divide 8 (high r) = r >>> 8 := by
  have eight : (8 : UInt32).toNat % 32 = 8 := rfl
  rw [← UInt32.toNat_inj, toNat_divide (toNat_high r), UInt32.toNat_shiftRight, eight,
    Nat.shiftRight_eq_div_pow]

theorem getD_table {n : Nat} (h : n < 256) : table.getD n 0 = divide 8 n.toUInt32 := by
  have size : n < table.size := by simpa [table] using h
  rw [Array.getD, dif_pos size]
  simp [table, entry, List.range, List.range.loop, divide]

/-- **The table takes the eight steps of a byte.** -/
theorem step_eq_divideByte (r : UInt32) (b : UInt8) : step r b = divideByte r b := by
  have index : ((r ^^^ b.toUInt32) &&& 0xFF).toNat < 256 := by
    rw [toNat_low]
    exact Nat.mod_lt _ (by decide)
  -- The byte is gone when the bytes above it are moved.
  have moved : (r ^^^ b.toUInt32) >>> 8 = r >>> 8 := by
    have gone : b.toUInt32 >>> 8 = 0 := by
      rw [← UInt32.toNat_inj]
      simp [UInt32.toNat_shiftRight, Nat.shiftRight_eq_div_pow, Nat.div_eq_of_lt b.toNat_lt]
    rw [UInt32.shiftRight_xor, gone, UInt32.xor_zero]
  calc step r b
      = divide 8 ((r ^^^ b.toUInt32) &&& 0xFF) ^^^ divide 8 (high (r ^^^ b.toUInt32)) := by
        rw [step, getD_table index, divide_high, moved]
        simp
    _ = divideByte r b := by rw [← divide_xor, low_xor_high, divideByte]

/-! ## §4. Texts. -/

theorem updateFrom_eq (data : ByteArray) (r : UInt32) (i : Nat) :
    updateFrom data r i = updateList r (data.toList.drop i) := by
  fun_induction updateFrom data r i with
  | case1 r i inside ih =>
    have there : i < data.data.toList.length := by simpa using inside
    rw [ih, toList_eq, List.drop_eq_getElem_cons there, updateList, updateList, List.foldl_cons]
    rfl
  | case2 r i outside =>
    rw [List.drop_eq_nil_of_le (by simpa using outside)]
    rfl

/-- **A text may come in pieces**: the check goes on where it stopped. -/
theorem updateFrom_append (a b : ByteArray) (r : UInt32) :
    updateFrom (a ++ b) r 0 = updateFrom b (updateFrom a r 0) 0 := by
  simp only [updateFrom_eq, List.drop_zero, toList_append, updateList_append]

/-- **The check value is the remainder of the division.** -/
theorem ofBytes_eq_remainder (data : ByteArray) : ofBytes data = remainder data := by
  have steps : step = divideByte := funext fun r => funext fun b => step_eq_divideByte r b
  rw [ofBytes, updateFrom_eq, List.drop_zero, updateList, steps, remainder]

end ArtifactCourier.Crc32
