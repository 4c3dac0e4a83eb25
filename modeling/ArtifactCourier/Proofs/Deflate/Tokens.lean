/-
  ArtifactCourier.Proofs.Deflate.Tokens
  ──────────────────────────────────────
  **The tokens of a block are read as they were written.**

  A length or a distance is written as the range it lies in and its place in that range.
  Ranges follow each other without a gap (`rangesFrom_covers`), so that every number between
  the first and the last lies in the range that is looked up for it, and base and place
  make it up again.  One token is then read as it was written (`readToken?_fields`), and by
  induction all tokens of a block (`readTokens?_fields`).

  The reader takes one step for a token and has as many as there are bits; every token takes
  at least one bit, so that the steps do not run out.
-/
import ArtifactCourier.Deflate.Decoder
import ArtifactCourier.Deflate.Encoder
import ArtifactCourier.Proofs.Deflate.PrefixCode

namespace ArtifactCourier.Deflate

/-! ## §1. Ranges. -/

/-- The range at place `p.1` is `p.2`, and the number lies in it. -/
structure LiesIn (ranges : List Range) (n : Nat) (p : Nat × Range) : Prop where
  place : ranges[p.1]? = some p.2
  lower : p.2.base ≤ n
  upper : n < p.2.base + 2 ^ p.2.extra

/-- Ranges that follow each other do not start before the first one. -/
theorem base_le_of_mem_rangesFrom {base : Nat} {extras : List Nat} {r : Range}
    (hr : r ∈ rangesFrom base extras) : base ≤ r.base := by
  induction extras generalizing base with
  | nil => cases hr
  | cons extra extras ih =>
    rcases List.mem_cons.1 hr with rfl | hr
    · exact le_rfl
    · exact Nat.le_trans (Nat.le_add_right base _) (ih hr)

/-- The last range that starts at a number or before is the one the number lies in. -/
theorem rangesFrom_covers {base n : Nat} {extras : List Nat} (first : Nat) (lower : base ≤ n)
    (upper : n < base + (extras.map (2 ^ ·)).sum) :
    ∃ i r, (((rangesFrom base extras).zipIdx first).filter fun (r, _) => r.base ≤ n).getLast?
        = some (r, first + i) ∧ LiesIn (rangesFrom base extras) n (i, r) := by
  induction extras generalizing base first with
  | nil => simp at upper; omega
  | cons extra extras ih =>
    simp only [List.map_cons, List.sum_cons] at upper
    simp only [rangesFrom, List.zipIdx_cons, List.filter_cons, lower, decide_true, if_true]
    rcases Nat.lt_or_ge n (base + 2 ^ extra) with inside | behind
    · -- every later range starts behind the number
      have none_later : (((rangesFrom (base + Nat.pow 2 extra) extras).zipIdx (first + 1)).filter
          fun (r, _) => r.base ≤ n) = [] := by
        rw [List.filter_eq_nil_iff]
        rintro ⟨r, i⟩ hr
        have later : base + 2 ^ extra ≤ r.base :=
          base_le_of_mem_rangesFrom (List.fst_mem_of_mem_zipIdx hr)
        simp only [decide_eq_true_eq]
        omega
      rw [none_later]
      exact ⟨0, ⟨base, extra⟩, rfl, rfl, lower, inside⟩
    · obtain ⟨i, r, found, lies⟩ := ih (first + 1) behind (by omega)
      refine ⟨i + 1, r, ?_, ?_, lies.lower, lies.upper⟩
      · rw [List.getLast?_cons, show Nat.pow 2 extra = 2 ^ extra from rfl, found]
        simp only [Option.getD_some, Option.some.injEq, Prod.mk.injEq, true_and]
        omega
      · exact lies.place

theorem rangeOf?_rangesFrom {base n : Nat} {extras : List Nat} (lower : base ≤ n)
    (upper : n < base + (extras.map (2 ^ ·)).sum) :
    ∃ p, rangeOf? (rangesFrom base extras) n = some p ∧ LiesIn (rangesFrom base extras) n p := by
  obtain ⟨i, r, found, lies⟩ := rangesFrom_covers 0 lower upper
  refine ⟨(i, r), ?_, lies⟩
  rw [rangeOf?, found, Nat.zero_add]
  rfl

/-- Ranges that start behind the number do not matter. -/
theorem rangeOf?_append_of_lt {ranges more : List Range} {n : Nat} (h : ∀ r ∈ more, n < r.base) :
    rangeOf? (ranges ++ more) n = rangeOf? ranges n := by
  have none_later : ((more.zipIdx (0 + ranges.length)).filter fun (r, _) => r.base ≤ n) = [] := by
    rw [List.filter_eq_nil_iff]
    rintro ⟨r, i⟩ hr
    have later : n < r.base := h r (List.fst_mem_of_mem_zipIdx hr)
    simp only [decide_eq_true_eq]
    omega
  rw [rangeOf?, List.zipIdx_append, List.filter_append, none_later, List.append_nil]
  rfl

/-- A distance is written as its range and its place in the range. -/
theorem distanceSymbol_spec {distance : Nat} (lower : 1 ≤ distance)
    (upper : distance ≤ maxDistance) :
    ∃ i r, distanceSymbol distance = (i, ⟨distance - r.base, r.extra⟩)
      ∧ LiesIn distanceRanges distance (i, r) := by
  have covered : distance < 1 + ([0, 0, 0, 0, 1, 1, 2, 2, 3, 3, 4, 4, 5, 5, 6, 6, 7, 7, 8, 8, 9, 9,
      10, 10, 11, 11, 12, 12, 13, 13].map (2 ^ ·)).sum := Nat.lt_of_le_of_lt upper (by decide)
  obtain ⟨⟨i, r⟩, found, lies⟩ := rangeOf?_rangesFrom lower covered
  refine ⟨i, r, ?_, lies⟩
  rw [distanceSymbol, distanceRanges, found]
  rfl

/-- The greatest length has a range of its own; the others follow each other. -/
theorem rangeOf?_lengthRanges {length : Nat} (lower : minLength ≤ length)
    (upper : length ≤ maxLength) :
    ∃ p, rangeOf? lengthRanges length = some p ∧ LiesIn lengthRanges length p := by
  rcases Nat.lt_or_eq_of_le upper with shorter | rfl
  · have covered : length < 3 + ([0, 0, 0, 0, 0, 0, 0, 0, 1, 1, 1, 1, 2, 2, 2, 2, 3, 3, 3, 3,
        4, 4, 4, 4, 5, 5, 5, 5].map (2 ^ ·)).sum := Nat.lt_of_lt_of_le shorter (by decide)
    have first : 3 ≤ length := lower
    obtain ⟨p, found, lies⟩ := rangeOf?_rangesFrom first covered
    have behind : ∀ r ∈ [Range.mk 258 0], length < r.base := by
      intro r hr
      rw [List.mem_singleton.1 hr]
      exact shorter
    refine ⟨p, ?_, ?_, lies.lower, lies.upper⟩
    · rw [lengthRanges, rangeOf?_append_of_lt behind]
      exact found
    · have place := lies.place
      have inside := (List.getElem?_eq_some_iff.1 place).1
      rw [lengthRanges, List.getElem?_append_left inside]
      exact place
  · -- the last symbol is for the greatest length alone
    exact ⟨(28, ⟨258, 0⟩), by decide, by decide, by decide, by decide⟩

/-- A length is written as its range and its place in the range. -/
theorem lengthSymbol_spec {length : Nat} (lower : minLength ≤ length)
    (upper : length ≤ maxLength) :
    ∃ i r, lengthSymbol length = (firstLengthSymbol + i, ⟨length - r.base, r.extra⟩)
      ∧ LiesIn lengthRanges length (i, r) := by
  obtain ⟨⟨i, r⟩, found, lies⟩ := rangeOf?_lengthRanges lower upper
  have known : length < lengthTable.size := by
    rw [lengthTable, Array.size_ofFn]
    exact Nat.lt_succ_of_le upper
  have entry : lengthTable.getD length (0, ⟨3, 0⟩) = (i, r) := by
    rw [Array.getD, dif_pos known]
    simp only [lengthTable, Array.getInternal_eq_getElem, Array.getElem_ofFn, found,
      Option.getD_some]
  refine ⟨i, r, ?_, lies⟩
  rw [lengthSymbol, entry]

/-- Base and place in the range make the number up again. -/
theorem LiesIn.readInRange? {ranges : List Range} {n : Nat} {p : Nat × Range}
    (h : LiesIn ranges n p) (rest : List Bool) :
    readInRange? p.2 ((BitField.mk (n - p.2.base) p.2.extra).bits ++ rest) = some (n, rest) := by
  have lower := h.lower
  have upper := h.upper
  have fits : n - p.2.base < 2 ^ p.2.extra := by omega
  have whole : p.2.base + (n - p.2.base) = n := by omega
  simp only [Deflate.readInRange?, takeNumber_of_lt fits, bind, Option.bind, whole]

/-! ## §2. One token. -/

/-- The bounds within which a token can be written. -/
def Token.Fits : Token → Prop
  | byte _ => True
  | copy length distance =>
    minLength ≤ length ∧ length ≤ maxLength ∧ 1 ≤ distance ∧ distance ≤ maxDistance

/-- The words of a token are read as its symbols. -/
def BlockWords.Reads (words : BlockWords) (trees : BlockTrees) : Token → Prop
  | .byte b => words.literals.Reads trees.literals b.toNat
  | .copy length distance =>
    words.literals.Reads trees.literals (lengthSymbol length).1
      ∧ words.distances.Reads trees.distances (distanceSymbol distance).1

/-- The bits of fields, one behind the other. -/
def bitsOfFields (fields : List BitField) : List Bool := fields.flatMap BitField.bits

theorem bitsOfFields_append (a b : List BitField) :
    bitsOfFields (a ++ b) = bitsOfFields a ++ bitsOfFields b := List.flatMap_append

/-- Symbols of lengths come behind the bytes and the end of the block. -/
theorem endOfBlock_lt_firstLengthSymbol (i : Nat) : endOfBlock < firstLengthSymbol + i := by
  simp only [firstLengthSymbol, endOfBlock]
  omega

section Reading

variable {words : BlockWords} {trees : BlockTrees}

/-- **A token is read as it was written**, and takes at least one bit. -/
theorem readToken?_fields {t : Token} (fits : t.Fits) (reads : words.Reads trees t)
    (rest : List Bool) :
    0 < (bitsOfFields (tokenFields words t)).length
      ∧ readToken? trees (bitsOfFields (tokenFields words t) ++ rest) = some (some t, rest) := by
  cases t with
  | byte b =>
    obtain ⟨wide, read⟩ := reads
    have small : b.toNat < endOfBlock := by
      have := b.toNat_lt
      simp only [endOfBlock]
      omega
    have bits : bitsOfFields (tokenFields words (.byte b)) = (words.literals.word b.toNat).bits := by
      simp [tokenFields, bitsOfFields]
    rw [bits]
    refine ⟨by simpa using wide, ?_⟩
    simp [readToken?, read, small]
  | copy length distance =>
    obtain ⟨shortest, longest, nearest, farthest⟩ := fits
    obtain ⟨i, r, hl, length_lies⟩ := lengthSymbol_spec shortest longest
    obtain ⟨j, s, hd, distance_lies⟩ := distanceSymbol_spec nearest farthest
    simp only [BlockWords.Reads, hl, hd] at reads
    obtain ⟨⟨wide, read_length⟩, -, read_distance⟩ := reads
    have behind := endOfBlock_lt_firstLengthSymbol i
    have fields : tokenFields words (.copy length distance)
        = [words.literals.word (firstLengthSymbol + i), ⟨length - r.base, r.extra⟩,
            words.distances.word j, ⟨distance - s.base, s.extra⟩] := by
      simp only [tokenFields, hl, hd]
    rw [fields]
    constructor
    · simp only [bitsOfFields, List.flatMap_cons, List.length_append, BitField.length_bits]
      omega
    · simp only [bitsOfFields, List.flatMap_cons, List.flatMap_nil, List.append_nil,
        List.append_assoc, readToken?, read_length, read_distance, Nat.not_lt_of_gt behind,
        Nat.ne_of_gt behind, if_false, Nat.add_sub_cancel_left, length_lies.place,
        distance_lies.place, length_lies.readInRange?, distance_lies.readInRange?, bind,
        Option.bind]

/-! ## §3. All tokens of a block. -/

/-- **The tokens of a block are read as they were written**: what they expand to behind the text
that is there already, given a step for every bit. -/
theorem readTokens?_fields {tokens : List Token} (fits : ∀ t ∈ tokens, t.Fits)
    (reads : ∀ t ∈ tokens, words.Reads trees t)
    (ending : words.literals.Reads trees.literals endOfBlock) {out whole : ByteArray}
    (expands : tokens.foldlM Token.append? out = some whole) (rest : List Bool) {steps : Nat}
    (enough : (bitsOfFields (tokensFields words tokens)).length ≤ steps) :
    readTokens? trees steps out (bitsOfFields (tokensFields words tokens) ++ rest)
      = some (whole, rest) := by
  induction tokens generalizing out steps with
  | nil =>
    -- Only the end of the block is left, which takes the last step.
    cases expands
    obtain ⟨wide, read⟩ := ending
    have bits : bitsOfFields (tokensFields words []) = (words.literals.word endOfBlock).bits := by
      simp [tokensFields, bitsOfFields]
    rw [bits, BitField.length_bits] at enough
    obtain ⟨steps, rfl⟩ : ∃ n, steps = n + 1 := ⟨steps - 1, by omega⟩
    have ended : readToken? trees ((words.literals.word endOfBlock).bits ++ rest)
        = some (none, rest) := by
      simp [readToken?, read]
    simp [readTokens?, bits, ended]
  | cons t tokens ih =>
    obtain ⟨fit, fits⟩ := List.forall_mem_cons.1 fits
    obtain ⟨spoken, reads⟩ := List.forall_mem_cons.1 reads
    rw [List.foldlM_cons] at expands
    obtain ⟨grown, append, expands⟩ := Option.bind_eq_some_iff.1 expands
    have bits : bitsOfFields (tokensFields words (t :: tokens))
        = bitsOfFields (tokenFields words t) ++ bitsOfFields (tokensFields words tokens) := by
      rw [← bitsOfFields_append, tokensFields, List.flatMap_cons, List.append_assoc]
      rfl
    rw [bits, List.length_append] at enough
    obtain ⟨wide, read⟩ := readToken?_fields fit spoken
      (bitsOfFields (tokensFields words tokens) ++ rest)
    -- The token takes a step and at least one bit, so that the steps suffice for the others.
    obtain ⟨steps, rfl⟩ : ∃ n, steps = n + 1 := ⟨steps - 1, by omega⟩
    simp only [bits, List.append_assoc, readTokens?, read, append]
    exact ih fits reads expands (by omega)

end Reading
end ArtifactCourier.Deflate
