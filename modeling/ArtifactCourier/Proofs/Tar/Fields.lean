/-
  ArtifactCourier.Proofs.Tar.Fields
  ──────────────────────────────────────
  **Fields of a header are read as they were written.**

  A field has a fixed width, whatever it holds (`length_textField`, `length_numberField`), so
  that the fields behind it stand where they should.  Numbers come back from octal digits
  (`readOctal_octalField`) and, where those do not suffice, from the binary form, which loses
  its highest bit to the mark (`readNumber_numberField`); text comes back up to its first zero
  byte (`takeWhile_textField`).
-/
import Mathlib.Tactic.Ring
import Mathlib.Tactic.Positivity
import Mathlib.Algebra.Order.Ring.Nat
import ArtifactCourier.Tar.Header

namespace ArtifactCourier.Tar

/-! ## §1. Widths. -/

@[simp] theorem length_textField (width : Nat) (bytes : List UInt8) :
    (textField width bytes).length = width := by
  simp only [textField, List.length_append, List.length_take, List.length_replicate]
  omega

@[simp] theorem length_octalDigits (width n : Nat) : (octalDigits width n).length = width := by
  induction width generalizing n with
  | zero => rfl
  | succ width ih => simp [octalDigits, ih]

@[simp] theorem length_bigEndian (width n : Nat) : (bigEndian width n).length = width := by
  induction width generalizing n with
  | zero => rfl
  | succ width ih => simp [bigEndian, ih]

@[simp] theorem length_octalField {width : Nat} (h : 0 < width) (n : Nat) :
    (octalField width n).length = width := by
  simp only [octalField, List.length_append, length_octalDigits, List.length_singleton]
  omega

@[simp] theorem length_numberField {width : Nat} (h : 0 < width) (n : Nat) :
    (numberField width n).length = width := by
  rw [numberField]
  split
  case isTrue => exact length_octalField h n
  case isFalse =>
    have all := length_bigEndian width n
    split
    case h_1 empty =>
      rw [empty] at all
      exact all
    case h_2 b rest form =>
      rw [form] at all
      exact all

/-! ## §2. Octal digits. -/

/-- Digits are neither zero bytes nor spaces, and below the mark of the binary form. -/
theorem digit_of_mem_octalDigits {width n : Nat} {b : UInt8} (hb : b ∈ octalDigits width n) :
    ∃ d < 8, b = (0x30 + d).toUInt8 := by
  induction width generalizing n with
  | zero => cases hb
  | succ width ih =>
    rcases List.mem_append.1 hb with hb | hb
    · exact ih hb
    · exact ⟨n % 8, Nat.mod_lt _ (by decide), List.mem_singleton.1 hb⟩

theorem toNat_digit {d : Nat} (hd : d < 8) : ((0x30 + d).toUInt8).toNat = 0x30 + d := by
  rw [UInt8.toNat_ofNat']
  omega

theorem foldl_octalDigits (width n : Nat) :
    (octalDigits width n).foldl (fun n b => n * 8 + (b.toNat - 0x30)) 0 = n % 8 ^ width := by
  induction width generalizing n with
  | zero => simp [octalDigits, Nat.mod_one]
  | succ width ih =>
    have digit : ((0x30 + n % 8).toUInt8).toNat - 0x30 = n % 8 := by
      rw [toNat_digit (Nat.mod_lt _ (by decide))]
      omega
    have split : n / 8 % 8 ^ width * 8 + n % 8 = n % 8 ^ (width + 1) := by
      rw [pow_succ', Nat.mod_mul]
      ring
    rw [octalDigits, List.foldl_append, ih, List.foldl_cons, List.foldl_nil, digit, split]

/-- **A number that its digits suffice for is read as it was written.** -/
theorem readOctal_octalField {width n : Nat} (h : n < 8 ^ width) :
    readOctal (octalField (width + 1) n) = n := by
  have plain : ∀ b ∈ octalDigits width n, (b != 0 && b != 0x20) = true := by
    intro b hb
    obtain ⟨d, hd, rfl⟩ := digit_of_mem_octalDigits hb
    have value := toNat_digit hd
    simp only [Bool.and_eq_true, bne_iff_ne, ne_eq, ← UInt8.toNat_inj, value]
    constructor
    · intro given
      have zero : (0 : UInt8).toNat = 0 := rfl
      omega
    · intro given
      have space : (0x20 : UInt8).toNat = 0x20 := rfl
      omega
  have digits : (octalDigits width n ++ [0]).takeWhile (fun b => b != 0 && b != 0x20)
      = octalDigits width n := by
    rw [List.takeWhile_append_of_pos plain]
    simp
  rw [readOctal, octalField, Nat.add_sub_cancel, digits, foldl_octalDigits, Nat.mod_eq_of_lt h]

/-- A field of digits is not taken for a binary one. -/
theorem readNumber_octalField {width n : Nat} (h : n < 8 ^ width) :
    readNumber (octalField (width + 1) n) = n := by
  have unmarked : ∀ b ∈ octalField (width + 1) n, ¬ b ≥ 0x80 := by
    intro b hb
    rcases List.mem_append.1 hb with hb | hb
    · obtain ⟨d, hd, rfl⟩ := digit_of_mem_octalDigits hb
      have value := toNat_digit hd
      rw [ge_iff_le, UInt8.le_iff_toNat_le, value]
      have mark : (0x80 : UInt8).toNat = 0x80 := rfl
      omega
    · rw [List.mem_singleton.1 hb]
      decide
  unfold readNumber
  split
  case h_1 b rest form =>
    rw [if_neg (unmarked b (form ▸ List.mem_cons_self ..)), readOctal_octalField h]
  case h_2 empty =>
    have all := length_octalField (Nat.succ_pos width) n
    rw [empty] at all
    cases all

/-! ## §3. Binary numbers. -/

/-- The highest byte comes first. -/
theorem bigEndian_succ (width n : Nat) :
    bigEndian (width + 1) n = (n / 256 ^ width).toUInt8 :: bigEndian width n := by
  induction width generalizing n with
  | zero => simp [bigEndian]
  | succ width ih =>
    rw [bigEndian, ih, Nat.div_div_eq_div_mul, ← pow_succ']
    rfl

theorem foldl_bigEndian (width n start : Nat) :
    (bigEndian width n).foldl (fun n b => n * 256 + b.toNat) start
      = start * 256 ^ width + n % 256 ^ width := by
  induction width generalizing n with
  | zero => simp [bigEndian, Nat.mod_one]
  | succ width ih =>
    have byte : n.toUInt8.toNat = n % 256 := UInt8.toNat_ofNat'
    rw [bigEndian, List.foldl_append, ih, List.foldl_cons, List.foldl_nil, byte, pow_succ',
      Nat.mod_mul]
    ring

/-- The mark is the high bit of a byte. -/
theorem toNat_marked {b : UInt8} (h : b.toNat < 0x80) : (b ||| 0x80).toNat = b.toNat + 0x80 := by
  have apart : 2 ^ 7 * 1 + b.toNat = 2 ^ 7 * 1 ||| b.toNat := Nat.two_pow_add_eq_or_of_lt h 1
  rw [UInt8.toNat_or, Nat.or_comm, Nat.add_comm]
  exact apart.symm

/-- **A number is read as it was written**, if the mark of the binary form does not cover it. -/
theorem readNumber_numberField {width n : Nat} (h : n < 0x80 * 256 ^ width) :
    readNumber (numberField (width + 1) n) = n := by
  rw [numberField]
  split
  case isTrue small => exact readNumber_octalField small
  case isFalse =>
    have high : n / 256 ^ width < 0x80 := by
      rw [Nat.div_lt_iff_lt_mul (by positivity)]
      exact h
    have byte : ((n / 256 ^ width).toUInt8).toNat = n / 256 ^ width :=
      UInt8.toNat_ofNat'.trans (Nat.mod_eq_of_lt (Nat.lt_trans high (by decide)))
    have value : ((n / 256 ^ width).toUInt8 ||| 0x80).toNat = n / 256 ^ width + 0x80 := by
      rw [toNat_marked (byte.symm ▸ high), byte]
    have marked : (n / 256 ^ width).toUInt8 ||| 0x80 ≥ 0x80 := by
      rw [ge_iff_le, UInt8.le_iff_toNat_le, value]
      exact Nat.le_add_left _ _
    rw [bigEndian_succ]
    dsimp only
    rw [readNumber, if_pos marked, foldl_bigEndian, value, Nat.add_sub_cancel]
    exact Nat.div_add_mod' n (256 ^ width)

/-! ## §4. Texts. -/

/-- A text without zero bytes is read up to the zeros that fill its field. -/
theorem takeWhile_textField {width : Nat} {bytes : List UInt8} (short : bytes.length ≤ width)
    (plain : 0 ∉ bytes) : (textField width bytes).takeWhile (· != 0) = bytes := by
  have nonzero : ∀ b ∈ bytes, (b != 0) = true := by
    intro b hb
    rw [bne_iff_ne]
    rintro rfl
    exact plain hb
  rw [textField, List.take_of_length_le short, List.takeWhile_append_of_pos nonzero]
  simp

/-! ## §5. Pieces. -/

/-- The bytes of a piece of a list. -/
def slice (bytes : List UInt8) (first width : Nat) : List UInt8 := (bytes.drop first).take width

/-- A piece of the first of two lists. -/
theorem slice_append_left {a b : List UInt8} {first width : Nat} (h : first + width ≤ a.length) :
    slice (a ++ b) first width = slice a first width := by
  rw [slice, slice, List.drop_append_of_le_length (by omega),
    List.take_append_of_le_length (by rw [List.length_drop]; omega)]

/-- A piece with bytes in front of it and behind it. -/
theorem slice_between {before piece after : List UInt8} {first width : Nat}
    (hb : before.length = first) (hp : piece.length = width) :
    slice (before ++ piece ++ after) first width = piece := by
  rw [slice, List.append_assoc, ← hb, List.drop_left, ← hp, List.take_left]

end ArtifactCourier.Tar
