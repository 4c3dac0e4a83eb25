/-
  ArtifactCourier.Proofs.Deflate.Bits
  ──────────────────────────────────────
  **What a writer wrote is what a reader reads.**

  A writer holds whole bytes and a few bits that do not fill one yet.  What it wrote is one
  string of bits, `BitWriter.written`, and the bytes are only a way to keep it: a field put
  behind is its bits put behind (`BitWriter.written_put`), and the finished bytes hold the
  string and at most seven zeros (`BitWriter.bitsOf_finish`).  The reader takes a field's
  bits back as the number (`takeNumber_bits`).

  Fields are taken apart at their lowest bit (`BitField.bits_succ`) and at any other place
  (`BitField.bits_add`); nothing else has to be known about `Nat.testBit`.
-/
import Mathlib.Tactic.Ring
import Mathlib.Tactic.Positivity
import Mathlib.Algebra.Order.Ring.Nat
import ArtifactCourier.Deflate.Bits
import ArtifactCourier.Proofs.Bytes

namespace ArtifactCourier.Deflate

/-! ## §1. The bits of a field. -/

namespace BitField

@[simp] theorem length_bits (f : BitField) : f.bits.length = f.width := by simp [bits]

@[simp] theorem bits_zero (n : Nat) : (BitField.mk n 0).bits = [] := rfl

/-- The low bit comes first. -/
theorem bits_succ (n width : Nat) :
    (BitField.mk n (width + 1)).bits = n.testBit 0 :: (BitField.mk (n / 2) width).bits := by
  simp only [bits, List.range_succ_eq_map, List.map_cons, List.map_map]
  congr 1
  apply List.map_congr_left
  intro i _
  simp [Nat.testBit_succ]

/-- The bits behind the first `a` are those of the number divided by `2 ^ a`. -/
theorem bits_add (n a b : Nat) :
    (BitField.mk n (a + b)).bits = (BitField.mk n a).bits ++ (BitField.mk (n / 2 ^ a) b).bits := by
  induction a generalizing n with
  | zero => simp
  | succ a ih =>
    have shift : a + 1 + b = (a + b) + 1 := by omega
    rw [shift, bits_succ, ih, bits_succ, Nat.div_div_eq_div_mul, pow_succ']
    rfl

/-- Bits above the width do not count. -/
theorem bits_congr {m n width : Nat} (h : m % 2 ^ width = n % 2 ^ width) :
    (BitField.mk m width).bits = (BitField.mk n width).bits := by
  apply List.map_congr_left
  intro i hi
  have hi : i < width := List.mem_range.1 hi
  have low (k : Nat) : (k % 2 ^ width).testBit i = k.testBit i := by
    simp [Nat.testBit_mod_two_pow, hi]
  rw [← low m, ← low n, h]

/-- A field of zeros. -/
theorem bits_of_zero (width : Nat) : (BitField.mk 0 width).bits = List.replicate width false := by
  rw [List.eq_replicate_iff]
  refine ⟨by simp, fun b hb => ?_⟩
  obtain ⟨i, -, rfl⟩ := List.mem_map.1 hb
  exact Nat.zero_testBit i

/-- The field made of some bits has those bits. -/
@[simp] theorem bits_ofBits (bits : List Bool) : (ofBits bits).bits = bits := by
  induction bits with
  | nil => rfl
  | cons b bits ih =>
    have value : (ofBits (b :: bits)).value = 2 * (ofBits bits).value + b.toNat := rfl
    have half : (2 * (ofBits bits).value + b.toNat) / 2 = (ofBits bits).value := by
      cases b
      · simp
      · simp only [Bool.toNat_true]
        omega
    have low : (2 * (ofBits bits).value + b.toNat).testBit 0 = b := by
      cases b <;> simp
    have field : ofBits (b :: bits)
        = BitField.mk (2 * (ofBits bits).value + b.toNat) (bits.length + 1) := rfl
    rw [field, bits_succ, half, low]
    exact congrArg (b :: ·) ih

end BitField

/-- The reader takes the bits of a field back as its number. -/
theorem takeNumber_bits (n width : Nat) (rest : List Bool) :
    takeNumber width ((BitField.mk n width).bits ++ rest) = some (n % 2 ^ width, rest) := by
  induction width generalizing n with
  | zero => simp [takeNumber, Nat.mod_one]
  | succ width ih =>
    have low : (n.testBit 0).toNat = n % 2 := by
      rw [Nat.testBit_zero]
      rcases Nat.mod_two_eq_zero_or_one n with h | h <;> simp [h]
    have split : 2 * (n / 2 % 2 ^ width) + n % 2 = n % 2 ^ (width + 1) := by
      rw [pow_succ', Nat.mod_mul]
      omega
    simp only [BitField.bits_succ, List.cons_append, takeNumber, ih, low, bind, Option.bind, split]

/-- A number that fits is read back as it was written. -/
theorem takeNumber_of_lt {n width : Nat} (h : n < 2 ^ width) (rest : List Bool) :
    takeNumber width ((BitField.mk n width).bits ++ rest) = some (n, rest) := by
  rw [takeNumber_bits, Nat.mod_eq_of_lt h]

/-! ## §2. The bits of bytes. -/

@[simp] theorem length_bitsOfByte (b : UInt8) : (bitsOfByte b).length = 8 := rfl

/-- The bits of the low byte of a number are those of its field. -/
theorem bitsOfByte_toUInt8 (n : Nat) : bitsOfByte n.toUInt8 = (BitField.mk n 8).bits := by
  have same : n.toUInt8.toNat % 2 ^ 8 = n % 2 ^ 8 := by simp
  exact BitField.bits_congr same

theorem bitsBefore_eq {data : ByteArray} {n : Nat} (hn : n ≤ data.size) (rest : List Bool) :
    bitsBefore data n rest = (data.toList.take n).flatMap bitsOfByte ++ rest := by
  induction n generalizing rest with
  | zero => rfl
  | succ n ih =>
    have last : data.toList[n]? = some (byteAt data n) := getElem?_eq_byteAt hn
    rw [bitsBefore, ih (by omega), List.take_add_one, last, List.flatMap_append]
    simp

/-- The bits of bytes are those of each byte, one byte after the other. -/
theorem bitsOf_eq (data : ByteArray) : bitsOf data = data.toList.flatMap bitsOfByte := by
  have all : data.toList.take data.size = data.toList := by
    rw [← length_toList, List.take_length]
  rw [bitsOf, bitsBefore_eq le_rfl, all, List.append_nil]

@[simp] theorem bitsOf_empty : bitsOf ByteArray.empty = [] := rfl

theorem bitsOf_push (data : ByteArray) (b : UInt8) :
    bitsOf (data.push b) = bitsOf data ++ bitsOfByte b := by
  simp [bitsOf_eq, toList_eq, ByteArray.data_push]

theorem bitsOf_append (a b : ByteArray) : bitsOf (a ++ b) = bitsOf a ++ bitsOf b := by
  simp [bitsOf_eq]

@[simp] theorem length_bitsOf (data : ByteArray) : (bitsOf data).length = 8 * data.size := by
  have each (bytes : List UInt8) : (bytes.flatMap bitsOfByte).length = 8 * bytes.length := by
    induction bytes with
    | nil => rfl
    | cons b bytes ih =>
      simp only [List.flatMap_cons, List.length_append, length_bitsOfByte, ih, List.length_cons]
      omega
  rw [bitsOf_eq, each, length_toList]

/-! ## §3. Writing. -/

namespace BitWriter

/-- Everything a writer wrote: the bits of its bytes, and the bits left over. -/
def written (w : BitWriter) : List Bool :=
  bitsOf w.bytes ++ (BitField.mk w.pending w.count).bits

/-- The bits left over fill no byte, and nothing is kept above them. -/
structure Settled (w : BitWriter) : Prop where
  few : w.count < 8
  low : w.pending < 2 ^ w.count

theorem settled_empty : empty.Settled := ⟨by decide, by decide⟩

@[simp] theorem written_empty : empty.written = [] := rfl

theorem length_written (w : BitWriter) : w.written.length = w.bitCount := by
  simp [written, bitCount]

/-- Moving bits into bytes leaves the string as it is. -/
theorem settle_spec (bytes : ByteArray) {pending count : Nat} (h : pending < 2 ^ count) :
    (settle bytes pending count).written = bitsOf bytes ++ (BitField.mk pending count).bits
      ∧ (settle bytes pending count).Settled := by
  induction count using Nat.strongRecOn generalizing bytes pending with
  | ind count ih =>
    unfold settle
    split
    case isTrue few => exact ⟨rfl, few, h⟩
    case isFalse many =>
      obtain ⟨more, rfl⟩ : ∃ more, count = 8 + more := ⟨count - 8, by omega⟩
      have high : pending / 256 < 2 ^ more := by
        rw [pow_add] at h
        omega
      rw [Nat.add_sub_cancel_left]
      obtain ⟨string, settled⟩ := ih more (by omega) (bytes.push pending.toUInt8) high
      refine ⟨?_, settled⟩
      rw [string, bitsOf_push, bitsOfByte_toUInt8, List.append_assoc, BitField.bits_add]
      rfl

/-- **A field that is put is its bits put behind.** -/
theorem put_spec {w : BitWriter} (hw : w.Settled) (f : BitField) :
    (w.put f).written = w.written ++ f.bits ∧ (w.put f).Settled := by
  obtain ⟨n, width⟩ := f
  have fits : w.pending + n % 2 ^ width * 2 ^ w.count < 2 ^ (w.count + width) := by
    have low := hw.low
    have short : n % 2 ^ width + 1 ≤ 2 ^ width := Nat.mod_lt _ (by positivity)
    calc w.pending + n % 2 ^ width * 2 ^ w.count
        < 2 ^ w.count + n % 2 ^ width * 2 ^ w.count := by omega
      _ = (n % 2 ^ width + 1) * 2 ^ w.count := by ring
      _ ≤ 2 ^ width * 2 ^ w.count := Nat.mul_le_mul_right _ short
      _ = 2 ^ (w.count + width) := by ring
  have lower : (w.pending + n % 2 ^ width * 2 ^ w.count) % 2 ^ w.count
      = w.pending % 2 ^ w.count := Nat.add_mul_mod_self_right _ _ _
  have upper : (w.pending + n % 2 ^ width * 2 ^ w.count) / 2 ^ w.count = n % 2 ^ width := by
    rw [Nat.add_mul_div_right _ _ (by positivity), Nat.div_eq_of_lt hw.low, Nat.zero_add]
  obtain ⟨string, settled⟩ := settle_spec w.bytes fits
  refine ⟨?_, settled⟩
  rw [BitField.bits_add, BitField.bits_congr lower, upper,
    BitField.bits_congr (Nat.mod_mod n (2 ^ width)), ← List.append_assoc] at string
  exact string

theorem written_put {w : BitWriter} (hw : w.Settled) (f : BitField) :
    (w.put f).written = w.written ++ f.bits := (put_spec hw f).1

theorem Settled.put {w : BitWriter} (hw : w.Settled) (f : BitField) : (w.put f).Settled :=
  (put_spec hw f).2

theorem putAll_spec {w : BitWriter} (hw : w.Settled) (fields : List BitField) :
    (w.putAll fields).written = w.written ++ fields.flatMap BitField.bits
      ∧ (w.putAll fields).Settled := by
  induction fields generalizing w with
  | nil => exact ⟨by simp [putAll], hw⟩
  | cons f fields ih =>
    obtain ⟨string, settled⟩ := ih (hw.put f)
    refine ⟨?_, settled⟩
    rw [written_put hw, List.append_assoc] at string
    exact string

theorem padding_bits (w : BitWriter) :
    w.padding.bits = List.replicate ((8 - w.count) % 8) false := BitField.bits_of_zero _

/-- Padding fills the last byte: no bits are left over. -/
theorem count_put_padding {w : BitWriter} (hw : w.Settled) : (w.put w.padding).count = 0 := by
  have total := length_written (w.put w.padding)
  rw [written_put hw, List.length_append, length_written, padding_bits, List.length_replicate]
    at total
  have few := (hw.put w.padding).few
  have fewer := hw.few
  simp only [bitCount] at total
  omega

theorem written_put_padding {w : BitWriter} (hw : w.Settled) :
    bitsOf (w.put w.padding).bytes = w.written ++ List.replicate ((8 - w.count) % 8) false := by
  have string := written_put hw w.padding
  rw [written, count_put_padding hw, padding_bits] at string
  simpa using string

/-- Whole bytes behind whole bytes. -/
theorem written_append {w : BitWriter} (whole : w.count = 0) (more : ByteArray) :
    ({ w with bytes := w.bytes ++ more } : BitWriter).written = w.written ++ bitsOf more := by
  simp [written, whole, bitsOf_append]

/-- **The finished bytes hold what was written and at most seven zeros.** -/
theorem bitsOf_finish {w : BitWriter} (hw : w.Settled) :
    ∃ few < 8, bitsOf w.finish = w.written ++ List.replicate few false :=
  ⟨(8 - w.count) % 8, by omega, written_put_padding hw⟩

end BitWriter

end ArtifactCourier.Deflate
