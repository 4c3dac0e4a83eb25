/-
  ArtifactCourier.Proofs.Deflate.Description
  ──────────────────────────────────────
  **The codes of a block are read back from their description.**

  A description has three layers, and each is inverted by itself:

    • the runs that the word lengths are cut into keep to the bounds of their kinds
      (`Run.fits_of_mem_ofLengths`), so that each is read as it was written
      (`readRun?_fields`), and all of them until the lengths are complete
      (`readLengths?_fields`);
    • the lengths of the third code are written in an order of their own and without the
      zeros at the end, and nothing is lost by that (`runLengths_withoutTail`);
    • the three counts in front say how much of each there is (`readTrees?_fields`).
-/
import ArtifactCourier.Proofs.Deflate.Lengths
import ArtifactCourier.Proofs.Deflate.Tokens

namespace ArtifactCourier.Deflate

/-! ## §1. Runs keep to their bounds. -/

namespace Run

/-- What the symbol and the extra bits of a run can say. -/
def Fits : Run → Prop
  | one length => length < 16
  | again times => 3 ≤ times ∧ times ≤ 6
  | zeros times => 3 ≤ times ∧ times ≤ 10
  | manyZeros times => 11 ≤ times ∧ times ≤ 138

theorem fits_of_mem_ofZeros {n : Nat} (hn : n ≤ 138) : ∀ r ∈ ofZeros n, r.Fits := by
  intro r hr
  rw [ofZeros] at hr
  split at hr
  case isTrue =>
    rw [(List.mem_replicate.1 hr).2]
    exact Nat.succ_pos _
  case isFalse many =>
    split at hr
    · rw [List.mem_singleton.1 hr]
      exact ⟨by omega, by omega⟩
    · rw [List.mem_singleton.1 hr]
      exact ⟨by omega, by omega⟩

theorem fits_of_mem_ofRepeats {length n : Nat} (hl : length < 16) (hn : n ≤ 6) :
    ∀ r ∈ ofRepeats length n, r.Fits := by
  intro r hr
  rw [ofRepeats] at hr
  split at hr
  case isTrue =>
    rw [(List.mem_replicate.1 hr).2]
    exact hl
  case isFalse many =>
    rw [List.mem_singleton.1 hr]
    exact ⟨by omega, hn⟩

/-- Along the list the counts stay small enough to be written: they are written and start
again when they reach the greatest number of their kind. -/
theorem fits_of_mem_ofLengthsFrom {last : Option Nat} {zeroCount repeats : Nat}
    {lengths : List Nat} (hlast : last.getD 0 < 16) (hz : zeroCount < 138) (hr : repeats < 6)
    (hl : ∀ n ∈ lengths, n < 16) : ∀ r ∈ ofLengthsFrom last zeroCount repeats lengths, r.Fits := by
  -- Only where a count is full does it come near its bound, and there it starts again.
  fun_induction ofLengthsFrom last zeroCount repeats lengths with
  | case1 last zeroCount repeats =>
    exact List.forall_mem_append.2
      ⟨fits_of_mem_ofZeros (by omega), fits_of_mem_ofRepeats hlast (by omega)⟩
  | case2 last zeroCount repeats rest full ih =>
    obtain ⟨-, hrest⟩ := List.forall_mem_cons.1 hl
    have repeated := fits_of_mem_ofRepeats hlast (Nat.le_of_lt hr)
    have later := ih (by decide) (by decide) (by decide) hrest
    rw [List.forall_mem_append, List.forall_mem_append]
    exact ⟨⟨repeated, fits_of_mem_ofZeros (by omega)⟩, later⟩
  | case3 last zeroCount repeats rest room ih =>
    obtain ⟨-, hrest⟩ := List.forall_mem_cons.1 hl
    have repeated := fits_of_mem_ofRepeats hlast (Nat.le_of_lt hr)
    have later := ih (by decide) (by omega) (by decide) hrest
    exact List.forall_mem_append.2 ⟨repeated, later⟩
  | case4 zeroCount repeats n rest positive full ih =>
    obtain ⟨hn, hrest⟩ := List.forall_mem_cons.1 hl
    have later := ih hn (by decide) (by decide) hrest
    rw [List.forall_mem_append, List.forall_mem_append]
    exact ⟨⟨fits_of_mem_ofZeros (by omega), fits_of_mem_ofRepeats hn le_rfl⟩, later⟩
  | case5 zeroCount repeats n rest positive room ih =>
    obtain ⟨hn, hrest⟩ := List.forall_mem_cons.1 hl
    have later := ih hn (by decide) (by omega) hrest
    exact List.forall_mem_append.2 ⟨fits_of_mem_ofZeros (by omega), later⟩
  | case6 last zeroCount repeats n rest positive new ih =>
    obtain ⟨hn, hrest⟩ := List.forall_mem_cons.1 hl
    have repeated := fits_of_mem_ofRepeats hlast (Nat.le_of_lt hr)
    have later := ih hn (by decide) (by decide) hrest
    rw [List.forall_mem_append, List.forall_mem_append, List.forall_mem_cons]
    exact ⟨⟨fits_of_mem_ofZeros (by omega), repeated⟩, hn, later⟩

/-- **The runs of lengths below sixteen keep to their bounds.** -/
theorem fits_of_mem_ofLengths {lengths : List Nat} (hl : ∀ n ∈ lengths, n < 16) :
    ∀ r ∈ ofLengths lengths, r.Fits :=
  fits_of_mem_ofLengthsFrom (by decide) (by decide) (by decide) hl

/-- A run that keeps to its bounds adds at least one length. -/
theorem length_lt_of_append? {r : Run} (hr : r.Fits) {reversed grown : List Nat}
    (h : r.append? reversed = some grown) : reversed.length < grown.length := by
  cases r with
  | one length =>
    cases h
    simp
  | again times =>
    obtain ⟨n, -, rfl⟩ := Option.map_eq_some_iff.1 h
    have := hr.1
    simp only [List.length_append, List.length_replicate]
    omega
  | zeros times =>
    cases h
    have := hr.1
    simp only [List.length_append, List.length_replicate]
    omega
  | manyZeros times =>
    cases h
    have := hr.1
    simp only [List.length_append, List.length_replicate]
    omega

theorem length_le_of_foldlM {runs : List Run} (hf : ∀ r ∈ runs, r.Fits) {reversed whole : List Nat}
    (h : runs.foldlM append? reversed = some whole) : reversed.length ≤ whole.length := by
  induction runs generalizing reversed with
  | nil =>
    cases h
    exact le_rfl
  | cons r runs ih =>
    obtain ⟨hr, hruns⟩ := List.forall_mem_cons.1 hf
    rw [List.foldlM_cons] at h
    obtain ⟨grown, append, h⟩ := Option.bind_eq_some_iff.1 h
    have more := length_lt_of_append? hr append
    have rest := ih hruns h
    omega

end Run

/-! ## §2. Runs describe what they were made for. -/

namespace Run

/-- Lengths that are written singly. -/
theorem append?_singly (length n : Nat) (reversed : List Nat) :
    (List.replicate n (one length)).foldlM append? reversed
      = some (List.replicate n length ++ reversed) := by
  induction n generalizing reversed with
  | zero => rfl
  | succ n ih =>
    have grown : List.replicate n length ++ length :: reversed
        = List.replicate (n + 1) length ++ reversed := by
      rw [List.replicate_succ', List.append_assoc, List.singleton_append]
    rw [List.replicate_succ, List.foldlM_cons]
    exact (ih (length :: reversed)).trans (congrArg some grown)

theorem append?_ofZeros (n : Nat) (reversed : List Nat) :
    (ofZeros n).foldlM append? reversed = some (List.replicate n 0 ++ reversed) := by
  rw [ofZeros]
  split
  case isTrue => exact append?_singly 0 n reversed
  case isFalse => split <;> rfl

theorem append?_ofRepeats {length n : Nat} {reversed : List Nat}
    (behind : n ≠ 0 → reversed.head? = some length) :
    (ofRepeats length n).foldlM append? reversed
      = some (List.replicate n length ++ reversed) := by
  rw [ofRepeats]
  split
  case isTrue => exact append?_singly length n reversed
  case isFalse many =>
    have last := behind (by omega)
    simp [append?, last]

/-- What has been seen and not written yet, behind the lengths that were: zeros or repetitions of
the last length, not both. -/
structure Pending (last : Option Nat) (zeroCount repeats : Nat) (reversed : List Nat) : Prop where
  zeros : zeroCount ≠ 0 → last = some 0
  repeats : repeats ≠ 0 → ∃ n ≠ 0, last = some n
  written : ∀ n ≠ 0, last = some n → reversed.head? = some n

theorem Pending.none (reversed : List Nat) : Pending none 0 0 reversed :=
  ⟨fun h => absurd rfl h, fun h => absurd rfl h, fun _ _ h => Option.some_ne_none _ h.symm |>.elim⟩

/-- Zeros are counted where the last length was a zero. -/
theorem Pending.zero (zeroCount : Nat) (reversed : List Nat) :
    Pending (some 0) zeroCount 0 reversed :=
  ⟨fun _ => rfl, fun h => absurd rfl h, fun _ some_length h => absurd (Option.some.inj h).symm some_length⟩

/-- Repetitions are counted where the last length was written. -/
theorem Pending.repeated {n : Nat} (some_length : n ≠ 0) (repeats : Nat) {reversed : List Nat}
    (head : reversed.head? = some n) : Pending (some n) 0 repeats reversed :=
  ⟨fun h => absurd rfl h, fun _ => ⟨n, some_length, rfl⟩, fun _ _ h => h ▸ head⟩

theorem Pending.no_zero {n zeroCount repeats : Nat} {reversed : List Nat}
    (h : Pending (some n) zeroCount repeats reversed) (some_length : n ≠ 0) : zeroCount = 0 := by
  by_contra some_zero
  exact some_length (Option.some.inj (h.zeros some_zero))

theorem Pending.append?_ofRepeats {last : Option Nat} {zeroCount repeats : Nat}
    {reversed : List Nat} (h : Pending last zeroCount repeats reversed) :
    (ofRepeats (last.getD 0) repeats).foldlM append? reversed
      = some (List.replicate repeats (last.getD 0) ++ reversed) := by
  refine Run.append?_ofRepeats fun some_repeat => ?_
  obtain ⟨n, some_length, rfl⟩ := h.repeats some_repeat
  exact h.written n some_length rfl

/-- Of the two kinds, only one is there. -/
theorem Pending.append?_both {last : Option Nat} {zeroCount repeats : Nat} {reversed : List Nat}
    (h : Pending last zeroCount repeats reversed) :
    (ofZeros zeroCount ++ ofRepeats (last.getD 0) repeats).foldlM append? reversed
      = some (List.replicate zeroCount 0 ++ (List.replicate repeats (last.getD 0) ++ reversed)) := by
  rcases eq_or_ne zeroCount 0 with rfl | some_zero
  · exact h.append?_ofRepeats
  · have no_repeat : repeats = 0 := by
      by_contra some_repeat
      obtain ⟨n, some_length, last⟩ := h.repeats some_repeat
      rw [h.zeros some_zero] at last
      exact some_length (Option.some.inj last).symm
    subst no_repeat
    exact (congrArg (List.foldlM append? reversed) (List.append_nil _)).trans
      (append?_ofZeros zeroCount reversed)

/-- The runs describe what is pending and the lengths that are left. -/
theorem expands_ofLengthsFrom {last : Option Nat} {zeroCount repeats : Nat}
    {lengths reversed : List Nat} (h : Pending last zeroCount repeats reversed) :
    (ofLengthsFrom last zeroCount repeats lengths).foldlM append? reversed
      = some (lengths.reverse
          ++ (List.replicate zeroCount 0 ++ (List.replicate repeats (last.getD 0) ++ reversed))) := by
  fun_induction ofLengthsFrom last zeroCount repeats lengths generalizing reversed with
  | case1 last zeroCount repeats => exact h.append?_both
  | case2 last zeroCount repeats rest full ih =>
    have repeated := h.append?_ofRepeats
    simp only [List.foldlM_append, repeated, Option.bind_eq_bind, Option.bind_some,
      append?_ofZeros, ih (.zero 0 _)]
    simp [List.replicate_succ]
  | case3 last zeroCount repeats rest room ih =>
    have repeated := h.append?_ofRepeats
    simp only [List.foldlM_append, repeated, Option.bind_eq_bind, Option.bind_some, ih (.zero _ _)]
    simp [List.replicate_succ]
  | case4 zeroCount repeats n rest positive full ih =>
    have written := h.written n positive rfl
    have zeros := append?_ofZeros zeroCount reversed
    rw [h.no_zero positive] at zeros ⊢
    have repeated : (ofRepeats n 6).foldlM append? reversed
        = some (List.replicate 6 n ++ reversed) := Run.append?_ofRepeats fun _ => written
    have later := @ih (List.replicate 6 n ++ reversed) (.repeated positive 0 rfl)
    have five : repeats = 5 := by omega
    simp only [List.foldlM_append, zeros, List.replicate_zero, List.nil_append, repeated,
      Option.bind_eq_bind, Option.bind_some, later]
    simp [five, List.replicate_succ]
  | case5 zeroCount repeats n rest positive room ih =>
    have written := h.written n positive rfl
    have zeros := append?_ofZeros zeroCount reversed
    rw [h.no_zero positive] at zeros ⊢
    simp only [List.foldlM_append, zeros, List.replicate_zero, List.nil_append,
      Option.bind_eq_bind, Option.bind_some, ih (.repeated positive _ written)]
    simp [List.replicate_succ]
  | case6 last zeroCount repeats n rest positive new ih =>
    have later (before : List Nat) := @ih (n :: before) (.repeated positive 0 rfl)
    simp only [List.foldlM_append, List.foldlM_cons, h.append?_both, append?, Option.bind_eq_bind,
      Option.bind_some, later]
    simp

/-- **The runs of lengths describe these lengths.** -/
theorem expand?_ofLengths (lengths : List Nat) : expand? (ofLengths lengths) = some lengths := by
  rw [expand?, ofLengths, expands_ofLengthsFrom (.none [])]
  simp

end Run

/-! ## §3. Runs are read as they were written. -/

/-- **A run that keeps to its bounds is read as it was written.** -/
theorem readRun?_fields {words : WordTable} {tree : CodeTree} {r : Run}
    (reads : words.Reads tree r.symbol) (fits : r.Fits) (rest : List Bool) :
    readRun? tree (bitsOfFields (runFields words r) ++ rest) = some (r, rest) := by
  obtain ⟨-, read⟩ := reads
  have bits : bitsOfFields (runFields words r) ++ rest
      = (words.word r.symbol).bits ++ (r.extra.bits ++ rest) := by
    simp [bitsOfFields, runFields]
  rw [bits, readRun?, read]
  cases r with
  | one length =>
    have small : length < 16 := fits
    simp [Run.symbol, Run.extra, small]
  | again times =>
    obtain ⟨least, most⟩ := fits
    have room : times - 3 < 2 ^ 2 := by omega
    simp [Run.symbol, Run.extra, takeNumber_of_lt room]
    omega
  | zeros times =>
    obtain ⟨least, most⟩ := fits
    have room : times - 3 < 2 ^ 3 := by omega
    simp [Run.symbol, Run.extra, takeNumber_of_lt room]
    omega
  | manyZeros times =>
    obtain ⟨least, most⟩ := fits
    have room : times - 11 < 2 ^ 7 := by omega
    simp [Run.symbol, Run.extra, takeNumber_of_lt room]
    omega

/-- **All runs are read, and no more**: the reader goes on until the lengths are complete, which
they are behind the last run and not before. -/
theorem readLengths?_fields {words : WordTable} {tree : CodeTree} {runs : List Run}
    (reads : ∀ r ∈ runs, words.Reads tree r.symbol) (fits : ∀ r ∈ runs, r.Fits)
    {reversed whole : List Nat} (expands : runs.foldlM Run.append? reversed = some whole)
    (rest : List Bool) {steps : Nat} (enough : whole.length ≤ reversed.length + steps) :
    readLengths? tree whole.length steps reversed
      (bitsOfFields (runs.flatMap (runFields words)) ++ rest) = some (whole, rest) := by
  induction runs generalizing reversed steps with
  | nil =>
    cases expands
    cases steps <;> simp [readLengths?, bitsOfFields]
  | cons r runs ih =>
    obtain ⟨read, reads⟩ := List.forall_mem_cons.1 reads
    obtain ⟨fit, fits⟩ := List.forall_mem_cons.1 fits
    rw [List.foldlM_cons] at expands
    obtain ⟨grown, append, expands⟩ := Option.bind_eq_some_iff.1 expands
    -- The run adds a length that the reader does not have yet, so it cannot be done.
    have longer := Run.length_lt_of_append? fit append
    have incomplete := Run.length_le_of_foldlM fits expands
    obtain ⟨steps, rfl⟩ : ∃ n, steps = n + 1 := ⟨steps - 1, by omega⟩
    have short : ¬ reversed.length = whole.length := by omega
    have not_long : ¬ reversed.length > whole.length := by omega
    rw [List.flatMap_cons, bitsOfFields_append, List.append_assoc, readLengths?, if_neg short,
      if_neg not_long, readRun?_fields read fit]
    simp only [bind, Option.bind, append]
    exact ih reads fits expands (by omega)

/-! ## §4. The lengths of the third code. -/

theorem readSmallNumbers?_fields {ns : List Nat} (hn : ∀ n ∈ ns, n < 8) (rest : List Bool) :
    readSmallNumbers? ns.length (bitsOfFields (ns.map fun n => ⟨n, 3⟩) ++ rest)
      = some (ns, rest) := by
  induction ns with
  | nil => rfl
  | cons n ns ih =>
    obtain ⟨small, hns⟩ := List.forall_mem_cons.1 hn
    have bits : bitsOfFields ((n :: ns).map fun n => ⟨n, 3⟩) ++ rest
        = (BitField.mk n 3).bits ++ (bitsOfFields (ns.map fun n => ⟨n, 3⟩) ++ rest) := by
      simp [bitsOfFields]
    have fits : n < 2 ^ 3 := small
    simp only [bits, List.length_cons, readSmallNumbers?, takeNumber_of_lt fits, ih hns, bind,
      Option.bind]

/-- Only zeros are left out at the end of a list. -/
theorem withoutTail_spec (least : Nat) (ns : List Nat) :
    ∃ left, ns = withoutTail least ns ++ List.replicate left 0 := by
  let zeros := (ns.drop least).reverse.takeWhile (· == 0)
  have all_zero : zeros.reverse = List.replicate zeros.length 0 := by
    rw [List.eq_replicate_iff]
    refine ⟨List.length_reverse, fun n hn => ?_⟩
    simpa using List.all_eq_true.1 List.all_takeWhile n (List.mem_reverse.1 hn)
  have split : ((ns.drop least).reverse.dropWhile (· == 0)).reverse ++ zeros.reverse
      = ns.drop least := by
    rw [← List.reverse_append, List.takeWhile_append_dropWhile, List.reverse_reverse]
  refine ⟨zeros.length, ?_⟩
  rw [← all_zero, withoutTail, List.append_assoc, split, List.take_append_drop]

theorem length_withoutTail_le (least : Nat) (ns : List Nat) :
    (withoutTail least ns).length ≤ ns.length := by
  obtain ⟨left, split⟩ := withoutTail_spec least ns
  have total := congrArg List.length split
  rw [List.length_append] at total
  omega

theorem le_length_withoutTail {least : Nat} {ns : List Nat} (h : least ≤ ns.length) :
    least ≤ (withoutTail least ns).length := by
  rw [withoutTail, List.length_append, List.length_take]
  omega

theorem mem_of_mem_withoutTail {least n : Nat} {ns : List Nat} (h : n ∈ withoutTail least ns) :
    n ∈ ns := by
  obtain ⟨left, split⟩ := withoutTail_spec least ns
  rw [split]
  exact List.mem_append_left _ h

/-- A number in a list of numbers that only lacks zeros at its end is found at its key. -/
theorem lookup_zip_of_tail {keys : List Nat} {f : Nat → Nat} {ns : List Nat} {left : Nat}
    (h : keys.map f = ns ++ List.replicate left 0) {k : Nat} (hk : k ∈ keys) :
    ((keys.zip ns).lookup k).getD 0 = f k := by
  induction keys generalizing ns with
  | nil => cases hk
  | cons key keys ih =>
    cases ns with
    | nil =>
      -- Behind the numbers that are written there were only zeros.
      have there : f k ∈ List.replicate left 0 := by
        rw [← List.nil_append (List.replicate left 0), ← h]
        exact List.mem_map_of_mem hk
      rw [(List.mem_replicate.1 there).2]
      rfl
    | cons n ns =>
      obtain ⟨first, later⟩ := List.cons_eq_cons.1 h
      rcases eq_or_ne k key with rfl | other
      · simp [first]
      · have hk : k ∈ keys := (List.mem_cons.1 hk).resolve_left other
        have elsewhere : (k == key) = false := by simpa using other
        simp only [List.zip_cons_cons, List.lookup_cons, elsewhere]
        exact ih later hk

/-- **The lengths of the third code are read back** from the order they are written in. -/
theorem runLengths_withoutTail {lengths : List Nat} (hl : lengths.length = 19) :
    runLengths (withoutTail 4 (runOrder.map fun symbol => lengths.getD symbol 0)) = lengths := by
  obtain ⟨left, split⟩ := withoutTail_spec 4 (runOrder.map fun symbol => lengths.getD symbol 0)
  have every : ∀ symbol < 19, symbol ∈ runOrder := by decide
  have found : runLengths (withoutTail 4 (runOrder.map fun symbol => lengths.getD symbol 0))
      = (List.range 19).map fun symbol => lengths.getD symbol 0 := by
    apply List.map_congr_left
    intro symbol hs
    exact lookup_zip_of_tail split (every symbol (List.mem_range.1 hs))
  rw [found]
  apply List.ext_getElem
  · simp [hl]
  · intro i _ inside
    simp [inside]

/-! ## §5. The whole description. -/

/-- Room for the numbers of lengths in a description. -/
structure Counted (literals distances : List Nat) : Prop where
  least_literals : minLiteralCount ≤ literals.length
  most_literals : literals.length < minLiteralCount + 32
  least_distances : 1 ≤ distances.length
  most_distances : distances.length < 1 + 32
  short : ∀ n ∈ literals ++ distances, n < 16

/-- What is counted along a list occurs, wherever in the list it stands. -/
theorem foldl_counts {σ α : Type} (Valid Occurs : σ → Prop) {step : σ → α → σ}
    (valid : ∀ s x, Valid s → Valid (step s x)) (kept : ∀ s x, Occurs s → Occurs (step s x))
    {x : α} (counts : ∀ s, Valid s → Occurs (step s x)) {xs : List α} (hx : x ∈ xs) {s : σ}
    (hs : Valid s) : Occurs (xs.foldl step s) := by
  induction xs generalizing s with
  | nil => cases hx
  | cons y xs ih =>
    rw [List.foldl_cons]
    rcases List.mem_cons.1 hx with rfl | later
    · exact List.foldlRecOn (motive := Occurs) xs step (counts s hs) fun s seen y _ => kept s y seen
    · exact ih later (valid s y hs)

/-- Counting one more keeps what occurs. -/
theorem getD_modify_ne_zero {counts : Array Nat} {i : Nat} (j : Nat)
    (h : counts.getD i 0 ≠ 0) : (counts.modify j (· + 1)).getD i 0 ≠ 0 := by
  simp only [Array.getD_eq_getD_getElem?, Array.getElem?_modify] at h ⊢
  split
  · cases there : counts[i]? <;> simp_all
  · exact h

/-- What is counted occurs. -/
theorem getD_modify_self_ne_zero {counts : Array Nat} {i : Nat} (inside : i < counts.size) :
    (counts.modify i (· + 1)).getD i 0 ≠ 0 := by
  have there : i < (counts.modify i (· + 1)).size := by rwa [Array.size_modify]
  rw [Array.getD, dif_pos there, Array.getInternal_eq_getElem, Array.getElem_modify_self]
  exact Nat.succ_ne_zero _

theorem size_runFrequencies (runs : List Run) : (runFrequencies runs).size = 19 :=
  List.foldlRecOn (motive := fun (a : Array Nat) => a.size = 19) runs _ Array.size_replicate
    fun _ size _ _ => Array.size_modify.trans size

/-- The symbol of a run is one of the third code. -/
theorem Run.symbol_lt {r : Run} (fits : r.Fits) : r.symbol < 19 := by
  cases r with
  | one length =>
    have small : length < 16 := fits
    exact Nat.lt_trans small (by decide)
  | again _ => exact Nat.lt_of_sub_pos (Nat.succ_pos 2)
  | zeros _ => exact Nat.lt_of_sub_pos (Nat.succ_pos 1)
  | manyZeros _ => exact Nat.lt_of_sub_pos (Nat.succ_pos 0)

theorem runFrequencies_ne_zero {runs : List Run} {r : Run} (hr : r ∈ runs) (fits : r.Fits) :
    (runFrequencies runs).getD r.symbol 0 ≠ 0 := by
  rw [runFrequencies]
  refine foldl_counts (fun (a : Array Nat) => a.size = 19)
    (fun (a : Array Nat) => a.getD r.symbol 0 ≠ 0) ?_ ?_ ?_ hr Array.size_replicate
  · exact fun _ _ size => Array.size_modify.trans size
  · exact fun _ other => getD_modify_ne_zero other.symbol
  · exact fun _ size => getD_modify_self_ne_zero (size ▸ r.symbol_lt fits)

theorem length_writtenLengths (lengths : List Nat) :
    4 ≤ (writtenLengths lengths).length ∧ (writtenLengths lengths).length ≤ 19 := by
  have all : (runOrder.map fun symbol => lengths.getD symbol 0).length = 19 := by simp [runOrder]
  constructor
  · exact le_length_withoutTail (by omega)
  · have most := length_withoutTail_le 4 (runOrder.map fun symbol => lengths.getD symbol 0)
    rw [all] at most
    exact most

theorem lt_of_mem_writtenLengths {lengths : List Nat} (hl : ∀ n ∈ lengths, n ≤ maxRunWordLength) :
    ∀ n ∈ writtenLengths lengths, n < 8 := by
  intro n hn
  obtain ⟨symbol, -, rfl⟩ := List.mem_map.1 (mem_of_mem_withoutTail hn)
  rcases Nat.lt_or_ge symbol lengths.length with inside | outside
  · have small := hl lengths[symbol] (List.getElem_mem inside)
    simp only [maxRunWordLength] at small
    simp only [List.getD, List.getElem?_eq_getElem inside, Option.getD_some]
    omega
  · simp [List.getD, List.getElem?_eq_none outside]

/-- **The codes of a block are read back from their description.** -/
theorem readTrees?_fields {literals distances : List Nat} (counted : Counted literals distances)
    {trees : BlockTrees} (built : BlockTrees.ofLengths? literals distances = some trees)
    (rest : List Bool) :
    readTrees? (bitsOfFields (codeFields literals distances) ++ rest) = some (trees, rest) := by
  let runs := Run.ofLengths (literals ++ distances)
  let lengths := Lengths.ofFrequencies maxRunWordLength (runFrequencies runs)
  let words := WordTable.ofLengths maxRunWordLength lengths
  have limit : 1 ≤ maxRunWordLength := by decide
  have few : (runFrequencies runs).size ≤ 2 ^ maxRunWordLength := by
    rw [size_runFrequencies]
    decide
  have room : HaveRoom maxRunWordLength lengths := Lengths.haveRoom_ofFrequencies limit few
  obtain ⟨tree, grown, read⟩ := exists_tree room
  have fits : ∀ r ∈ runs, r.Fits := Run.fits_of_mem_ofLengths counted.short
  have reads : ∀ r ∈ runs, words.Reads tree r.symbol := fun r hr =>
    read _ (Lengths.ofFrequencies_ne_zero limit few (runFrequencies_ne_zero hr (fits r hr)))
  obtain ⟨reversed, collected, straight⟩ :=
    Option.map_eq_some_iff.1 (Run.expand?_ofLengths (literals ++ distances))
  have total : reversed.length = literals.length + distances.length := by
    rw [← List.length_reverse, straight, List.length_append]
  obtain ⟨least_literals, most_literals, least_distances, most_distances, -⟩ := counted
  have written_bounds := length_writtenLengths lengths
  have literal_room : literals.length - minLiteralCount < 2 ^ 5 := by omega
  have distance_room : distances.length - 1 < 2 ^ 5 := by omega
  have written_room : (writtenLengths lengths).length - 4 < 2 ^ 4 := by omega
  have bits : bitsOfFields (codeFields literals distances) ++ rest
      = (BitField.mk (literals.length - minLiteralCount) 5).bits
        ++ ((BitField.mk (distances.length - 1) 5).bits
        ++ ((BitField.mk ((writtenLengths lengths).length - 4) 4).bits
        ++ (bitsOfFields ((writtenLengths lengths).map fun n => ⟨n, 3⟩)
        ++ (bitsOfFields (runs.flatMap (runFields words)) ++ rest)))) := by
    simp [bitsOfFields, codeFields, runs, lengths, words]
  have written_count : (writtenLengths lengths).length - 4 + 4 = (writtenLengths lengths).length :=
    by omega
  have literal_count : literals.length - minLiteralCount + minLiteralCount = literals.length := by
    omega
  have count : literals.length + (distances.length - 1 + 1) = reversed.length := by omega
  have symbols : lengths.length = 19 :=
    (Lengths.length_ofFrequencies ..).trans (size_runFrequencies runs)
  have same : runLengths (writtenLengths lengths) = lengths := runLengths_withoutTail symbols
  have enough : reversed.length ≤ ([] : List Nat).length + reversed.length := by simp
  have read_runs := readLengths?_fields reads fits collected rest enough
  simp only [bits, readTrees?, takeNumber_of_lt literal_room, takeNumber_of_lt distance_room,
    takeNumber_of_lt written_room, written_count,
    readSmallNumbers?_fields (lt_of_mem_writtenLengths room.short), same, grown, literal_count,
    count, read_runs, straight, List.take_left, List.drop_left, built, bind, Option.bind]

end ArtifactCourier.Deflate
