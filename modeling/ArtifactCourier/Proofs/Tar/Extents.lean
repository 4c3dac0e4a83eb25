/-
  ArtifactCourier.Proofs.Tar.Extents
  ──────────────────────────────────────
  **Stretches are read as they were written.**

  A header has room for four stretches, and each block that continues it for twenty-one.  What
  is read from a place depends only on the bytes that stand there (`Stands`): fields give back
  as many stretches as they had room for (`readExtents_eq`), and the blocks behind the header
  all the others (`readExtension_eq`), however many there are.
-/
import ArtifactCourier.Proofs.Bytes
import ArtifactCourier.Proofs.Tar.Fields
import ArtifactCourier.Tar.Archive

namespace ArtifactCourier.Tar

/-! ## §1. What stands at a place. -/

/-- Some bytes stand at a place of a string. -/
def Stands (data : ByteArray) (first : Nat) (bytes : List UInt8) : Prop :=
  bytes <+: data.toList.drop first

namespace Stands

variable {data : ByteArray} {first : Nat} {a b : List UInt8}

theorem left (h : Stands data first (a ++ b)) : Stands data first a :=
  (List.prefix_append a b).trans h

theorem right (h : Stands data first (a ++ b)) : Stands data (first + a.length) b := by
  obtain ⟨after, split⟩ := h
  refine ⟨after, ?_⟩
  rw [← List.drop_drop, ← split, List.append_assoc, List.drop_left]

theorem inside (h : Stands data first a) (some : a ≠ []) : first + a.length ≤ data.size := by
  have short := List.IsPrefix.length_le h
  have pos := List.length_pos_iff.2 some
  rw [List.length_drop, length_toList] at short
  omega

theorem field_eq (h : Stands data first a) {place width : Nat} (hw : place + width ≤ a.length) :
    field data (first + place) width = slice a place width := by
  obtain ⟨after, split⟩ := h
  rw [field, toList_extract, ← List.drop_drop, ← split]
  exact slice_append_left hw

theorem byteAt_eq (h : Stands data first a) {place : Nat} (hp : place + 1 ≤ a.length) :
    byteAt data (first + place) = (slice a place 1).headD 0 := by
  have inside : first + place < data.size := by
    have room := h.inside (List.ne_nil_of_length_pos (by omega))
    omega
  have there : first + place < data.toList.length := by rwa [length_toList]
  have byte := getElem?_eq_byteAt inside
  rw [List.getElem?_eq_getElem there] at byte
  rw [← h.field_eq hp, field, toList_extract, List.drop_eq_getElem_cons there, Option.some.inj byte]
  rfl

end Stands

/-- What was put between others stands behind what is in front. -/
theorem stands_between (before piece after : ByteArray) :
    Stands (before ++ piece ++ after) before.size piece.toList := by
  refine ⟨after.toList, ?_⟩
  rw [toList_append, toList_append, List.append_assoc, ← length_toList before, List.drop_left]

/-! ## §2. Fields of stretches. -/

/-- What the number fields of a header can hold. -/
def maxNumber : Nat := 0x80 * 256 ^ 11

theorem maxNumber_pos : 0 < maxNumber := by decide

/-- The stretches that some fields describe: fields that are not empty. -/
def extentsIn (bytes : List UInt8) (n : Nat) : List Extent :=
  (List.range n).filterMap fun i =>
    if (slice bytes (24 * i) 24).all (· == 0) then none
    else some ⟨readNumber (slice bytes (24 * i) 12), readNumber (slice bytes (24 * i + 12) 12)⟩

/-- A number field is never empty: it begins with a digit, or with the mark. -/
theorem exists_ne_zero_of_numberField (width n : Nat) :
    ∃ b ∈ numberField (width + 2) n, b ≠ 0 := by
  rw [numberField]
  split
  case isTrue =>
    have digits := length_octalDigits (width + 1) n
    obtain ⟨b, hb⟩ := List.exists_mem_of_length_pos (by rw [digits]; omega)
    obtain ⟨d, hd, rfl⟩ := digit_of_mem_octalDigits hb
    refine ⟨_, List.mem_append_left _ hb, fun zero => ?_⟩
    have value := toNat_digit hd
    rw [zero] at value
    have nothing : (0 : UInt8).toNat = 0 := rfl
    omega
  case isFalse =>
    rw [bigEndian_succ]
    refine ⟨_, List.mem_cons_self .., fun zero => ?_⟩
    have low : ((n / 256 ^ (width + 1)).toUInt8 ||| 0x80).toNat = 0 := congrArg UInt8.toNat zero
    rw [UInt8.toNat_or, Nat.or_eq_zero_iff] at low
    exact absurd low.2 (by decide)

/-- A stretch whose numbers fit into their fields. -/
def Extent.Fits (e : Extent) : Prop := e.offset < maxNumber ∧ e.length < maxNumber

@[simp] theorem Extent.length_field (e : Extent) : e.field.length = 24 := by simp [Extent.field]

/-- The first field, and the fields behind it. -/
theorem extentsIn_append {first : List UInt8} (hf : first.length = 24) (rest : List UInt8)
    (n : Nat) : extentsIn (first ++ rest) (n + 1)
      = (if first.all (· == 0) then none
          else some ⟨readNumber (slice first 0 12), readNumber (slice first 12 12)⟩).toList
        ++ extentsIn rest n := by
  have here {place width : Nat} (h : place + width ≤ 24) :
      slice (first ++ rest) place width = slice first place width :=
    slice_append_left (by rw [hf]; exact h)
  have behind (i place width : Nat) : slice (first ++ rest) (24 * (i + 1) + place) width
      = slice rest (24 * i + place) width := by
    rw [slice, List.drop_append, List.drop_eq_nil_of_le (by omega), List.nil_append, hf]
    congr 2
    omega
  have start (i width : Nat) : slice (first ++ rest) (24 * (i + 1)) width
      = slice rest (24 * i) width := behind i 0 width
  have whole : slice first 0 24 = first := List.take_of_length_le (Nat.le_of_eq hf)
  have all := here (show 0 + 24 ≤ 24 by decide)
  have offset := here (show 0 + 12 ≤ 24 by decide)
  have length := here (show 12 + 12 ≤ 24 by decide)
  simp only [extentsIn, List.range_succ_eq_map, List.filterMap_cons, List.filterMap_map,
    Function.comp_def, Nat.succ_eq_add_one, Nat.mul_zero, Nat.zero_add, all, whole, offset, length,
    start, behind]
  cases first.all (· == 0) <;> rfl

/-- Fields that were left empty describe nothing. -/
theorem extentsIn_zeros (n : Nat) : extentsIn (List.replicate (24 * n) 0) n = [] := by
  induction n with
  | zero => rfl
  | succ n ih =>
    have split : List.replicate (24 * (n + 1)) (0 : UInt8)
        = List.replicate 24 0 ++ List.replicate (24 * n) 0 := by
      rw [← List.replicate_add]
      congr 1
      omega
    rw [split, extentsIn_append List.length_replicate, ih]
    simp

/-- The field of a stretch, and those behind it. -/
theorem extentsIn_field {e : Extent} (fits : e.Fits) (rest : List UInt8) (n : Nat) :
    extentsIn (e.field ++ rest) (n + 1) = e :: extentsIn rest n := by
  obtain ⟨offset, length⟩ := fits
  have used : e.field.all (· == 0) = false := by
    obtain ⟨b, hb, nonzero⟩ := exists_ne_zero_of_numberField 10 e.offset
    rw [List.all_eq_false]
    exact ⟨b, List.mem_append_left _ hb, by simpa using nonzero⟩
  have first : slice e.field 0 12 = numberField 12 e.offset := by
    rw [Extent.field, slice_append_left (by simp)]
    exact List.take_of_length_le (by simp)
  have second : slice e.field 12 12 = numberField 12 e.length := by
    rw [Extent.field, ← List.append_nil (_ ++ _)]
    exact slice_between (by simp) (by simp)
  rw [extentsIn_append e.length_field, used, first, second, readNumber_numberField offset,
    readNumber_numberField length]
  rfl

theorem textField_append {first : List UInt8} {width : Nat} (rest : List UInt8) :
    textField (first.length + width) (first ++ rest) = first ++ textField width rest := by
  rw [textField, textField, List.take_length_add_append, List.length_append,
    Nat.add_sub_add_left, List.append_assoc]

/-- **Fields describe as many stretches as they have room for.** -/
theorem extentsIn_textField {extents : List Extent} (fit : ∀ e ∈ extents, e.Fits) (room : Nat) :
    extentsIn (textField (24 * room) (extents.flatMap Extent.field)) room = extents.take room := by
  induction room generalizing extents with
  | zero => rfl
  | succ room ih =>
    cases extents with
    | nil => exact extentsIn_zeros (room + 1)
    | cons e rest =>
      obtain ⟨fits, later⟩ := List.forall_mem_cons.1 fit
      have width : 24 * (room + 1) = e.field.length + 24 * room := by
        rw [e.length_field]
        omega
      rw [List.flatMap_cons, width, textField_append, extentsIn_field fits, ih later,
        List.take_succ_cons]

/-! ## §3. Reading. -/

@[simp] theorem length_extentFields (room : Nat) (extents : List Extent) :
    (extentFields room extents).length = 24 * room + 1 := by
  rw [extentFields, List.length_append, length_textField, List.length_singleton]

section fields

variable {extents : List Extent} {data : ByteArray} {room first : Nat}

theorem readExtents_of_stands {bytes : List UInt8} (h : Stands data first bytes)
    (long : 24 * room ≤ bytes.length) : readExtents data room first = extentsIn bytes room := by
  apply List.filterMap_congr
  intro i hi
  have hi : i < room := List.mem_range.1 hi
  have offset := h.field_eq (show 24 * i + 24 ≤ bytes.length by omega)
  have start := h.field_eq (show 24 * i + 12 ≤ bytes.length by omega)
  have length := h.field_eq (show 24 * i + 12 + 12 ≤ bytes.length by omega)
  simp only [offset, start, Nat.add_assoc, length]

variable (h : Stands data first (extentFields room extents))

include h

/-- **Fields give back as many stretches as they have room for.** -/
theorem readExtents_eq (fit : ∀ e ∈ extents, e.Fits) :
    readExtents data room first = extents.take room := by
  rw [readExtents_of_stands h.left (by rw [length_textField]), extentsIn_textField fit]

/-- **And they tell whether there are more.** -/
theorem areContinued_eq : areContinued data room first = decide (extents.length > room) := by
  have place := h.right.byteAt_eq (Nat.le_refl 1)
  rw [length_textField] at place
  rw [areContinued, ← Nat.add_zero (first + 24 * room), place]
  by_cases more : extents.length > room
  · simp [more, slice]
  · simp [more, slice]

end fields

/-- How many blocks continue a header for some stretches. -/
def blocksFor (extents : List Extent) : Nat :=
  (extents.length + (maxFurtherExtents - 1)) / maxFurtherExtents

theorem blocksFor_cons (e : Extent) (rest : List Extent) :
    blocksFor (e :: rest) = blocksFor (rest.drop (maxFurtherExtents - 1)) + 1 := by
  simp only [blocksFor, List.length_cons, List.length_drop, maxFurtherExtents]
  omega

/-- **Whole blocks continue a header.** -/
theorem length_extension (extents : List Extent) :
    (extension extents).length = blockSize * blocksFor extents := by
  fun_induction extension extents with
  | case1 => rfl
  | case2 e rest ih =>
    rw [List.length_append, ih, blocksFor_cons, Nat.mul_succ, Nat.add_comm]
    simp [blockSize, maxFurtherExtents]

/-- **The blocks that continue a header give back all their stretches.**  The induction is on the
blocks; one more follows as long as there are more stretches than the block has room for. -/
theorem readExtension_eq {extents : List Extent} (some : extents ≠ [])
    (fit : ∀ e ∈ extents, e.Fits) {data : ByteArray} {first steps : Nat}
    (there : Stands data first (extension extents)) (enough : blocksFor extents ≤ steps) :
    readExtension data steps first = (extents, blocksFor extents) := by
  fun_induction extension extents generalizing first steps with
  | case1 => exact absurd rfl some
  | case2 e rest ih =>
    have block : (extentFields maxFurtherExtents (e :: rest) ++ List.replicate 7 (0 : UInt8)).length
        = blockSize := by simp [blockSize, maxFurtherExtents]
    have later := there.right
    rw [block] at later
    have split : (e :: rest).drop maxFurtherExtents = rest.drop (maxFurtherExtents - 1) := rfl
    have count := blocksFor_cons e rest
    obtain ⟨steps, rfl⟩ : ∃ n, steps = n + 1 := ⟨steps - 1, by omega⟩
    rw [readExtension, readExtents_eq there.left.left fit, areContinued_eq there.left.left]
    by_cases more : (e :: rest).length > maxFurtherExtents
    · have left : rest.drop (maxFurtherExtents - 1) ≠ [] := by
        rw [← split, Ne, List.drop_eq_nil_iff]
        omega
      have behind : readExtension data steps (first + blockSize)
          = (rest.drop (maxFurtherExtents - 1), blocksFor (rest.drop (maxFurtherExtents - 1))) :=
        ih left (fun d hd => fit d (List.mem_cons_of_mem _ (List.mem_of_mem_drop hd))) later
          (by omega)
      simp only [more, decide_true, if_true, behind]
      rw [count, ← split, List.take_append_drop]
    · have none : rest.drop (maxFurtherExtents - 1) = [] := by
        rw [← split, List.drop_eq_nil_iff]
        omega
      simp only [more, decide_false, Bool.false_eq_true, if_false]
      rw [count, none, List.take_of_length_le (Nat.le_of_not_lt more)]
      rfl

end ArtifactCourier.Tar
