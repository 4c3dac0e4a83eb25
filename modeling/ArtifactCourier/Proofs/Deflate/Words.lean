/-
  ArtifactCourier.Proofs.Deflate.Words
  ──────────────────────────────────────
  **No word of a code begins another.**

  Words are numbers of fixed width, handed out from the shortest on.  Those of one length
  follow each other, and the first of the next length stands to the right of all of them, so
  that a word which another one begins would have to have its number (`not_isPrefix_words`).
  The numbers stay within their width as long as the words have room (`HaveRoom`): a word of
  length `n` takes up one part in `2 ^ n`, and the parts together are no more than one.

    • `getElem?_wordsOf` — the word of a symbol, by its length and the symbols before it,
    • `firstWord_mul` — the numbers count the room that is taken,
    • `pairwise_apart_wordsOf` — the law.
-/
import Mathlib.Algebra.BigOperators.Group.List.Basic
import Mathlib.Algebra.Order.BigOperators.Group.List
import Mathlib.Algebra.Order.Ring.Nat
import Mathlib.Tactic.Ring
import ArtifactCourier.Deflate.Huffman

namespace ArtifactCourier.Deflate

variable {lengths : List Nat} {maxLength : Nat}

/-! ## §1. Numbers as words. -/

@[simp] theorem length_wordBits (width n : Nat) : (wordBits width n).length = width := by
  simp [wordBits]

/-- The first bits of a word are the word of its high part. -/
theorem wordBits_add (high low n : Nat) :
    wordBits (high + low) n = wordBits high (n / 2 ^ low) ++ wordBits low n := by
  have shifted : (List.range high).map (n / 2 ^ low).testBit
      = (List.range high).map fun i => n.testBit (low + i) :=
    List.map_congr_left fun i _ => by rw [Nat.testBit_div_two_pow, Nat.add_comm]
  rw [wordBits, wordBits, wordBits, shifted, Nat.add_comm high, List.range_add, List.map_append,
    List.map_map, List.reverse_append]
  rfl

theorem wordBits_inj {width m n : Nat} (hm : m < 2 ^ width) (hn : n < 2 ^ width)
    (h : wordBits width m = wordBits width n) : m = n := by
  apply Nat.eq_of_testBit_eq
  intro i
  rcases Nat.lt_or_ge i width with inside | above
  · exact List.map_inj_left.1 (List.reverse_injective h) i (List.mem_range.2 inside)
  · have high : 2 ^ width ≤ 2 ^ i := Nat.pow_le_pow_right (by decide) above
    rw [Nat.testBit_lt_two_pow (Nat.lt_of_lt_of_le hm high),
      Nat.testBit_lt_two_pow (Nat.lt_of_lt_of_le hn high)]

/-- **What begins a word is its high part.** -/
theorem div_eq_of_isPrefix {short long m n : Nat} (hle : short ≤ long) (hm : m < 2 ^ short)
    (hn : n < 2 ^ long) (h : wordBits short m <+: wordBits long n) :
    n / 2 ^ (long - short) = m := by
  obtain ⟨low, rfl⟩ := Nat.exists_eq_add_of_le hle
  rw [Nat.add_sub_cancel_left]
  rw [wordBits_add] at h
  have same : wordBits short m = wordBits short (n / 2 ^ low) :=
    List.prefix_of_prefix_length_le h (List.prefix_append _ _) (by simp) |>.eq_of_length (by simp)
  have high : n / 2 ^ low < 2 ^ short := by
    rw [Nat.div_lt_iff_lt_mul (Nat.two_pow_pos low), ← pow_add]
    exact hn
  exact (wordBits_inj hm high same).symm

/-! ## §2. The first words. -/

/-- The words of a length stand to the left of all longer ones. -/
theorem firstWord_add_count_mul_le {m n : Nat} (hm : m ≠ 0) (h : m < n) :
    (firstWord lengths m + lengths.count m) * 2 ^ (n - m) ≤ firstWord lengths n := by
  induction n with
  | zero => omega
  | succ n ih =>
    rw [firstWord]
    rcases Nat.lt_or_eq_of_le (Nat.le_of_lt_succ h) with shorter | rfl
    · have step : n + 1 - m = n - m + 1 := by omega
      have before := ih shorter
      calc (firstWord lengths m + lengths.count m) * 2 ^ (n + 1 - m)
          = 2 * ((firstWord lengths m + lengths.count m) * 2 ^ (n - m)) := by rw [step]; ring
        _ ≤ 2 * firstWord lengths n := by omega
        _ ≤ _ := Nat.mul_le_mul_left 2 (Nat.le_add_right _ _)
    · rw [Nat.add_sub_cancel_left, if_neg hm]
      omega

/-- The part of a word of the greatest length that a symbol's word takes up. -/
def part (maxLength length : Nat) : Nat := if length = 0 then 0 else 2 ^ (maxLength - length)

/-- **The words have room**: none is too long, and together they take up no more than there is. -/
structure HaveRoom (maxLength : Nat) (lengths : List Nat) : Prop where
  short : ∀ n ∈ lengths, n ≤ maxLength
  room : (lengths.map (part maxLength)).sum ≤ 2 ^ maxLength

/-- Parts of the words up to a length, and those of the next length. -/
theorem sum_parts_succ (m : Nat) :
    (lengths.map fun n => if n < m + 1 then part maxLength n else 0).sum
      = (lengths.map fun n => if n < m then part maxLength n else 0).sum
        + lengths.count m * part maxLength m := by
  induction lengths with
  | nil => simp
  | cons n lengths ih =>
    simp only [List.map_cons, List.sum_cons, ih, List.count_cons]
    rcases Nat.lt_trichotomy n m with less | rfl | more
    · have next : n < m + 1 := by omega
      have other : (n == m) = false := by simp; omega
      simp only [less, next, other, if_true, Bool.false_eq_true, if_false]
      ring
    · simp only [Nat.lt_irrefl, Nat.lt_succ_self, if_true, if_false, beq_self_eq_true]
      ring
    · have not_next : ¬ n < m + 1 := by omega
      have not_less : ¬ n < m := by omega
      have other : (n == m) = false := by simp; omega
      simp only [not_next, not_less, other, if_false, Bool.false_eq_true]
      ring

/-- **The first word of a length counts the room that shorter ones take up.** -/
theorem firstWord_mul {m : Nat} (hm : m ≤ maxLength) :
    firstWord lengths m * 2 ^ (maxLength - m)
      = (lengths.map fun n => if n < m then part maxLength n else 0).sum := by
  induction m with
  | zero => simp [firstWord]
  | succ m ih =>
    have half : 2 * 2 ^ (maxLength - (m + 1)) = 2 ^ (maxLength - m) := by
      rw [← pow_succ']
      congr 1
      omega
    rw [firstWord, sum_parts_succ, ← ih (by omega)]
    calc 2 * (firstWord lengths m + if m = 0 then 0 else lengths.count m)
            * 2 ^ (maxLength - (m + 1))
        = (firstWord lengths m + if m = 0 then 0 else lengths.count m)
            * (2 * 2 ^ (maxLength - (m + 1))) := by ring
      _ = firstWord lengths m * 2 ^ (maxLength - m)
            + lengths.count m * part maxLength m := by
          rw [half, part, Nat.add_mul]
          split <;> simp

/-- With room, all words of a length have numbers of that width. -/
theorem firstWord_add_count_le (room : HaveRoom maxLength lengths) {m : Nat} (hm : m ≠ 0)
    (hle : m ≤ maxLength) : firstWord lengths m + lengths.count m ≤ 2 ^ m := by
  have taken : (firstWord lengths m + lengths.count m) * 2 ^ (maxLength - m)
      = (lengths.map fun n => if n < m + 1 then part maxLength n else 0).sum := by
    rw [sum_parts_succ, ← firstWord_mul hle, part, if_neg hm, Nat.add_mul]
  have within : (lengths.map fun n => if n < m + 1 then part maxLength n else 0).sum
      ≤ (lengths.map (part maxLength)).sum :=
    List.sum_le_sum fun n _ => by split <;> simp
  have whole : 2 ^ maxLength = 2 ^ m * 2 ^ (maxLength - m) := by
    rw [← pow_add]
    congr 1
    omega
  refine Nat.le_of_mul_le_mul_right ?_ (Nat.two_pow_pos (maxLength - m))
  rw [taken, ← whole]
  exact Nat.le_trans within room.room

/-! ## §3. The words of symbols. -/

/-- The word of a symbol is that of its length, as many behind the first as symbols of that length
came before. -/
theorem getElem?_wordsFrom {next : Array Nat} (inside : ∀ n ∈ lengths, n < next.size)
    (symbol : Nat) :
    (wordsFrom next lengths)[symbol]? = lengths[symbol]?.map fun n =>
      wordBits n (next.getD n 0 + (lengths.take symbol).count n) := by
  induction lengths generalizing next symbol with
  | nil => rfl
  | cons n lengths ih =>
    obtain ⟨here, later⟩ := List.forall_mem_cons.1 inside
    cases symbol with
    | zero => simp [wordsFrom]
    | succ symbol =>
      rw [wordsFrom, List.getElem?_cons_succ, ih (by simpa using later), List.getElem?_cons_succ]
      refine Option.map_congr fun m hm => ?_
      -- The number of one length has grown, by the symbol in front.
      have grown : (next.modify n (· + 1)).getD m 0
          = next.getD m 0 + if n = m then 1 else 0 := by
        have hm : m < next.size := later m (List.mem_of_getElem? hm)
        simp only [Array.getD_eq_getD_getElem?, Array.getElem?_modify]
        split
        · simp [hm]
        · simp
      rw [grown, List.take_succ_cons, List.count_cons]
      congr 1
      by_cases same : n = m
      · simp only [same, if_true, beq_self_eq_true]
        omega
      · simp [same]

theorem getElem?_wordsOf (short : ∀ n ∈ lengths, n ≤ maxLength) (symbol : Nat) :
    (wordsOf maxLength lengths)[symbol]? = lengths[symbol]?.map fun n =>
      wordBits n (firstWord lengths n + (lengths.take symbol).count n) := by
  rw [wordsOf, getElem?_wordsFrom (by simpa using fun n hn => Nat.lt_succ_of_le (short n hn))]
  refine Option.map_congr fun n hn => ?_
  have inside : n < maxLength + 1 := Nat.lt_succ_of_le (short n (List.mem_of_getElem? hn))
  rw [Array.getD_eq_getD_getElem?, Array.getElem?_ofFn, dif_pos inside, Option.getD_some]

/-- The symbols of one length before a symbol of that length are not all of them. -/
theorem count_take_lt {symbol n : Nat} (h : lengths[symbol]? = some n) :
    (lengths.take symbol).count n < lengths.count n := by
  obtain ⟨inside, here⟩ := List.getElem?_eq_some_iff.1 h
  have behind : 0 < (lengths.drop symbol).count n := by
    rw [List.drop_eq_getElem_cons inside, here, List.count_cons_self]
    exact Nat.succ_pos _
  have all : (lengths.take symbol).count n + (lengths.drop symbol).count n = lengths.count n := by
    rw [← List.count_append, List.take_append_drop]
  omega

/-- Symbols come later, and more of one length before them. -/
theorem count_take_lt_count_take {early late n : Nat} (order : early < late)
    (h : lengths[early]? = some n) :
    (lengths.take early).count n < (lengths.take late).count n := by
  have there : (lengths.take late)[early]? = some n := by rwa [List.getElem?_take_of_lt order]
  have before := count_take_lt there
  rwa [List.take_take, Nat.min_eq_left (Nat.le_of_lt order)] at before

/-- Words of which neither begins the other. -/
def Apart (u v : List Bool) : Prop := ¬ u <+: v ∧ ¬ v <+: u

/-- A word does not begin that of another symbol which is no shorter. -/
theorem not_isPrefix_words (room : HaveRoom maxLength lengths) {a b m n : Nat} (ne : a ≠ b)
    (ha : lengths[a]? = some m) (hb : lengths[b]? = some n) (hm : m ≠ 0) (order : m ≤ n) :
    ¬ wordBits m (firstWord lengths m + (lengths.take a).count m)
      <+: wordBits n (firstWord lengths n + (lengths.take b).count n) := by
  have hn : n ≠ 0 := by omega
  have some_m := count_take_lt ha
  have some_n := count_take_lt hb
  have fits_m := firstWord_add_count_le room hm (room.short m (List.mem_of_getElem? ha))
  have fits_n := firstWord_add_count_le room hn (room.short n (List.mem_of_getElem? hb))
  intro begins
  have number := div_eq_of_isPrefix order (by omega) (by omega) begins
  rcases Nat.lt_or_eq_of_le order with shorter | rfl
  · -- The longer word stands to the right of all shorter ones.
    have behind : firstWord lengths m + lengths.count m
        ≤ (firstWord lengths n + (lengths.take b).count n) / 2 ^ (n - m) := by
      rw [Nat.le_div_iff_mul_le (Nat.two_pow_pos (n - m))]
      exact Nat.le_trans (firstWord_add_count_mul_le hm shorter) (Nat.le_add_right _ _)
    omega
  · -- Of one length, the later symbol has the greater number.
    rw [Nat.sub_self, pow_zero, Nat.div_one] at number
    rcases Nat.lt_or_gt_of_ne ne with first | first
    · have := count_take_lt_count_take first ha
      omega
    · have := count_take_lt_count_take first hb
      omega

/-- **No word of a code begins another.** -/
theorem pairwise_apart_wordsOf (room : HaveRoom maxLength lengths) :
    (wordsOf maxLength lengths).Pairwise fun u v => u ≠ [] → v ≠ [] → Apart u v := by
  rw [List.pairwise_iff_getElem]
  intro a b ha hb order hu hv
  have word_a := getElem?_wordsOf room.short a
  have word_b := getElem?_wordsOf room.short b
  rw [List.getElem?_eq_getElem ha] at word_a
  rw [List.getElem?_eq_getElem hb] at word_b
  obtain ⟨m, hm, eq_a⟩ := Option.map_eq_some_iff.1 word_a.symm
  obtain ⟨n, hn, eq_b⟩ := Option.map_eq_some_iff.1 word_b.symm
  rw [← eq_a] at hu ⊢
  rw [← eq_b] at hv ⊢
  have some_m : m ≠ 0 := by
    rintro rfl
    exact hu rfl
  have some_n : n ≠ 0 := by
    rintro rfl
    exact hv rfl
  have ne : a ≠ b := Nat.ne_of_lt order
  rcases Nat.le_total m n with longer | longer
  · have apart := not_isPrefix_words room ne hm hn some_m longer
    refine ⟨apart, fun begins => ?_⟩
    have same_length : m = n := by
      have := begins.length_le
      simp only [length_wordBits] at this
      omega
    subst same_length
    exact not_isPrefix_words room ne.symm hn hm some_n le_rfl begins
  · have apart := not_isPrefix_words room ne.symm hn hm some_n longer
    refine ⟨fun begins => ?_, apart⟩
    have same_length : m = n := by
      have := begins.length_le
      simp only [length_wordBits] at this
      omega
    subst same_length
    exact not_isPrefix_words room ne hm hn some_m le_rfl begins

end ArtifactCourier.Deflate
