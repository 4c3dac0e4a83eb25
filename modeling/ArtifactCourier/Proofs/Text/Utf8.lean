/-
  ArtifactCourier.Proofs.Text.Utf8
  ──────────────────────────────────────
  **The bytes of a character begin with a character.**

  Text that is cut off after some bytes keeps the whole characters that were not hit.  As a
  character takes four bytes at most, something is left of every text that is cut off behind
  its fourth byte.

    • `isSome_front_utf8EncodeChar` — a character is read from its bytes, whatever follows,
    • `wholeChars_take_ne_nil` — a text that is cut off is not empty.
-/
import Mathlib.Data.Char
import ArtifactCourier.Text.Raw

namespace ArtifactCourier.RawText

/-! ## §1. Bytes of a character. -/

theorem toNat_ofNat {n : Nat} (h : n < 256) : (UInt8.ofNat n).toNat = n := by
  simp [Nat.mod_eq_of_lt h]

theorem isContinuation_iff {b : UInt8} :
    isContinuation b = true ↔ 0x80 ≤ b.toNat ∧ b.toNat ≤ 0xBF := by
  simp [isContinuation, UInt8.le_iff_toNat_le]

/-- What a second byte must be; four leading bytes leave it less choice. -/
theorem fitsLead_of {b c : UInt8} (continues : 0x80 ≤ c.toNat ∧ c.toNat ≤ 0xBF)
    (overlong : b.toNat = 0xE0 → 0xA0 ≤ c.toNat) (surrogate : b.toNat = 0xED → c.toNat ≤ 0x9F)
    (overlong' : b.toNat = 0xF0 → 0x90 ≤ c.toNat) (beyond : b.toNat = 0xF4 → c.toNat ≤ 0x8F) :
    fitsLead b c = true := by
  have e0 : (0xE0 : UInt8).toNat = 0xE0 := rfl
  have ed : (0xED : UInt8).toNat = 0xED := rfl
  have f0 : (0xF0 : UInt8).toNat = 0xF0 := rfl
  have f4 : (0xF4 : UInt8).toNat = 0xF4 := rfl
  simp only [fitsLead, isContinuation, beq_iff_eq, ← UInt8.toNat_inj, UInt8.le_iff_toNat_le, e0, ed,
    f0, f4]
  grind

theorem isSome_front_two {b c : UInt8} (rest : List UInt8) (lead : 0xC2 ≤ b.toNat ∧ b.toNat ≤ 0xDF)
    (second : isContinuation c = true) : (front b (c :: rest)).1.isSome = true := by
  have ascii : ¬ b < 0x80 := by
    rw [UInt8.lt_iff_toNat_lt, Nat.not_lt]
    exact Nat.le_trans (by decide) lead.1
  have two : (0xC2 ≤ b && b ≤ 0xDF) = true := by simpa [UInt8.le_iff_toNat_le] using lead
  unfold front
  rw [if_neg ascii, if_pos two]
  dsimp only
  rw [if_pos second]
  rfl

theorem isSome_front_three {b c d : UInt8} (rest : List UInt8)
    (lead : 0xE0 ≤ b.toNat ∧ b.toNat ≤ 0xEF) (second : fitsLead b c = true)
    (third : isContinuation d = true) : (front b (c :: d :: rest)).1.isSome = true := by
  have ascii : ¬ b < 0x80 := by
    rw [UInt8.lt_iff_toNat_lt, Nat.not_lt]
    exact Nat.le_trans (by decide) lead.1
  have two : ¬ (0xC2 ≤ b && b ≤ 0xDF) = true := by
    simp [UInt8.le_iff_toNat_le]
    omega
  have three : (0xE0 ≤ b && b ≤ 0xEF) = true := by simpa [UInt8.le_iff_toNat_le] using lead
  unfold front
  rw [if_neg ascii, if_neg two, if_pos three]
  dsimp only
  rw [if_pos second, if_pos third]
  rfl

theorem isSome_front_four {b c d e : UInt8} (rest : List UInt8)
    (lead : 0xF0 ≤ b.toNat ∧ b.toNat ≤ 0xF4) (second : fitsLead b c = true)
    (third : isContinuation d = true) (fourth : isContinuation e = true) :
    (front b (c :: d :: e :: rest)).1.isSome = true := by
  have ascii : ¬ b < 0x80 := by
    rw [UInt8.lt_iff_toNat_lt, Nat.not_lt]
    exact Nat.le_trans (by decide) lead.1
  have two : ¬ (0xC2 ≤ b && b ≤ 0xDF) = true := by
    simp [UInt8.le_iff_toNat_le]
    omega
  have three : ¬ (0xE0 ≤ b && b ≤ 0xEF) = true := by
    simp [UInt8.le_iff_toNat_le]
    omega
  have four : (0xF0 ≤ b && b ≤ 0xF4) = true := by simpa [UInt8.le_iff_toNat_le] using lead
  unfold front
  rw [if_neg ascii, if_neg two, if_neg three, if_pos four]
  dsimp only
  rw [if_pos second, if_pos third, if_pos fourth]
  rfl

/-- **A character is read from its bytes**, whatever follows them. -/
theorem isSome_front_utf8EncodeChar (c : Char) (rest : List UInt8) :
    ∃ b tail, String.utf8EncodeChar c ++ rest = b :: tail ∧ (front b tail).1.isSome = true := by
  have valid : c.val.toNat.isValidChar := c.valid
  have continues (n : Nat) : isContinuation (UInt8.ofNat (n % 64 + 128)) = true := by
    rw [isContinuation_iff, toNat_ofNat (by omega)]
    omega
  unfold String.utf8EncodeChar
  generalize c.val.toNat = v at valid
  unfold Nat.isValidChar at valid
  dsimp only
  split
  · refine ⟨_, _, rfl, ?_⟩
    have ascii : UInt8.ofNat v < 0x80 := by
      rw [UInt8.lt_iff_toNat_lt, toNat_ofNat (by omega)]
      show v < 128
      omega
    unfold front
    rw [if_pos ascii]
    rfl
  · split
    · refine ⟨_, _, rfl, isSome_front_two _ ?_ (continues v)⟩
      rw [toNat_ofNat (by omega)]
      omega
    · split
      · refine ⟨_, _, rfl, isSome_front_three _ ?_ ?_ (continues v)⟩
        · rw [toNat_ofNat (by omega)]
          omega
        · apply fitsLead_of <;> rw [toNat_ofNat (by omega)] <;> try rw [toNat_ofNat (by omega)]
          all_goals omega
      · refine ⟨_, _, rfl, isSome_front_four _ ?_ ?_ (continues (v / 64)) (continues v)⟩
        · rw [toNat_ofNat (by omega)]
          omega
        · apply fitsLead_of <;> rw [toNat_ofNat (by omega)] <;> try rw [toNat_ofNat (by omega)]
          all_goals omega

/-! ## §2. Texts that are cut off. -/

theorem length_utf8EncodeChar_le (c : Char) : (String.utf8EncodeChar c).length ≤ 4 := by
  rw [String.length_utf8EncodeChar]
  exact c.utf8Size_le_four

/-- **Something is left of a text that is cut off** behind its fourth byte. -/
theorem wholeChars_take_ne_nil {t : RawText} {s : String} (text : t = ofString s)
    (some : t.bytes ≠ []) {n : Nat} (h : 4 ≤ n) : wholeChars (t.bytes.take n) ≠ [] := by
  subst text
  obtain ⟨c, cs, hs⟩ : ∃ c cs, s.toList = c :: cs := by
    cases hs : s.toList with
    | nil => exact absurd (by simp [ofString, hs]) some
    | cons c cs => exact ⟨c, cs, rfl⟩
  have bytes : (ofString s).bytes
      = String.utf8EncodeChar c ++ cs.flatMap String.utf8EncodeChar := by
    simp [ofString, hs]
  have size := length_utf8EncodeChar_le c
  -- The first character is not hit.
  rw [bytes, List.take_append, List.take_of_length_le (Nat.le_trans size h)]
  obtain ⟨b, tail, split, read⟩ := isSome_front_utf8EncodeChar c
    ((cs.flatMap String.utf8EncodeChar).take (n - (String.utf8EncodeChar c).length))
  rw [split, wholeChars, wholeCharBytes, if_pos read, Nat.add_assoc, Nat.add_comm 1,
    List.take_succ_cons]
  exact List.cons_ne_nil _ _

end ArtifactCourier.RawText
