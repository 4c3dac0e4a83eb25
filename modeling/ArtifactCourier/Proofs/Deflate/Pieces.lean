/-
  ArtifactCourier.Proofs.Deflate.Pieces
  ──────────────────────────────────────
  **However a text comes in, it is compressed the same way.**

  A look at a place reads less than `maxLength` bytes from there on, and a block is made of
  text that was looked at.  So a place with `maxLength` bytes in front of it can be looked at
  before the rest of the text is there: the same is found (`decide_append`), and the same is
  written (`Scan.Sound.step_append`).  A writer stops at the first place for which this does
  not hold, hence two pieces are the same to it as one that is both (`Encoder.write_write`).
-/
import ArtifactCourier.Proofs.Deflate.RoundTrip

namespace ArtifactCourier.Deflate

variable {a : ByteArray} (b : ByteArray)

/-! ## §1. What is read. -/

theorem byteAt_append {i : Nat} (hi : i < a.size) : byteAt (a ++ b) i = byteAt a i := by
  have there : i < (a ++ b).size := by
    rw [ByteArray.size_append]
    exact Nat.lt_of_lt_of_le hi (Nat.le_add_right _ _)
  rw [byteAt, byteAt, dif_pos hi, dif_pos there, ByteArray.getElem_append_left hi]

theorem extract_append_of_le {i j : Nat} (hj : j ≤ a.size) : (a ++ b).extract i j = a.extract i j := by
  have nothing : b.extract (i - a.size) 0 = ByteArray.empty := by simp
  rw [ByteArray.extract_append, Nat.sub_eq_zero_of_le hj, nothing, ByteArray.append_empty]

namespace Matches

theorem commonLength_append {i j limit : Nat} (hi : i + limit ≤ a.size) (hj : j + limit ≤ a.size) :
    commonLength (a ++ b) i j limit = commonLength a i j limit := by
  induction limit generalizing i j with
  | zero => rfl
  | succ limit ih =>
    rw [commonLength, commonLength, byteAt_append b (by omega), byteAt_append b (by omega),
      ih (by omega) (by omega)]

/-- The place that comes into the chains has three bytes before the rest is there. -/
theorem Chains.add_append {c : Chains} (h : c.next + 2 < a.size) : c.add (a ++ b) = c.add a := by
  have there : c.next + 2 < (a ++ b).size := by
    rw [ByteArray.size_append]
    omega
  have same : chainAt (a ++ b) c.next = chainAt a c.next := by
    rw [chainAt, chainAt, byteAt_append b (by omega), byteAt_append b (by omega),
      byteAt_append b h]
  simp only [Chains.add, same, h, there, if_true]

@[simp] theorem Chains.next_add (c : Chains) (data : ByteArray) : (c.add data).next = c.next + 1 := by
  rw [Chains.add]
  split <;> rfl

theorem Chains.addMany_append {c : Chains} {n : Nat} (h : n = 0 ∨ c.next + n + 1 < a.size) :
    c.addMany (a ++ b) n = c.addMany a n := by
  induction n generalizing c with
  | zero => rfl
  | succ n ih =>
    rw [Chains.addMany, Chains.addMany, Chains.add_append b (by omega), ih]
    rw [Chains.next_add]
    omega

theorem Chains.addUpTo_append {c : Chains} {i : Nat} (h : i + 2 < a.size) :
    c.addUpTo (a ++ b) i = c.addUpTo a i := Chains.addMany_append b (by omega)

theorem search_append {c : Chains} {i limit probes place : Nat} {best : Match}
    (h : i + limit ≤ a.size) :
    search c (a ++ b) i limit probes place best = search c a i limit probes place best := by
  induction probes generalizing place best with
  | zero => rfl
  | succ probes ih =>
    rw [search, search]
    split
    · rfl
    · dsimp only
      split
      · rfl
      case isFalse near =>
        -- the model stands in front of the place
        rw [commonLength_append b h (by omega), ih]

/-- **At a place with enough text in front of it, the rest does not matter.** -/
theorem find?_append {c : Chains} {i known : Nat} (h : i + maxLength ≤ a.size) :
    find? c (a ++ b) i known = find? c a i known := by
  have all : min maxLength (a.size - i) = maxLength := by omega
  have there : min maxLength ((a ++ b).size - i) = maxLength := by
    rw [ByteArray.size_append]
    omega
  simp only [find?, all, there, search_append b h]

theorem decide_append {c : Chains} {i : Nat} {held : Option Match} (h : i + maxLength ≤ a.size) :
    decide c (a ++ b) i held = decide c a i held := by
  have longest : maxLength = 258 := rfl
  cases held with
  | none => rw [decide, decide, find?_append b h, byteAt_append b (by omega)]
  | some held => rw [decide, decide, find?_append b h, byteAt_append b (by omega)]

end Matches

/-! ## §2. What is written. -/

/-- A block is made of its stretch and the text up to its end. -/
theorem putStretch_append {s : Matches.Stretch} (h : s.stop ≤ a.size) (w : BitWriter) (last : Bool) :
    putStretch w last (a ++ b) s = putStretch w last a s := by
  rw [putStretch, putStretch, putStored, putStored, extract_append_of_le b h]

theorem closeIfFull_append {s : Matches.Stretch} (h : s.stop ≤ a.size) (out : BitWriter) :
    closeIfFull out (a ++ b) s = closeIfFull out a s := by
  rw [closeIfFull, closeIfFull, putStretch_append b h]

/-- **A look at a place with enough text in front of it needs nothing of the rest.** -/
theorem Scan.Sound.step_append {s : Scan} (h : s.Sound a) (enough : s.place + maxLength ≤ a.size) :
    s.step (a ++ b) = s.step a := by
  have longest : maxLength = 258 := rfl
  have later : s.place < a.size := by omega
  have decision := Matches.sound_decide (s.chains.addUpTo a s.place) later h.holds
  rw [← h.stop] at decision
  have inside := (h.covers.addAll decision).1.inside
  rw [Scan.step, Scan.step, Matches.Chains.addUpTo_append b (by omega),
    Matches.decide_append b enough, closeIfFull_append b inside]

/-- **Looking at all places with enough text in front of them needs nothing of the rest.** -/
theorem Scan.Sound.run_append {s : Scan} (h : s.Sound a) {stop : Nat}
    (enough : stop + maxLength ≤ a.size + 1) : s.run (a ++ b) stop = s.run a stop := by
  have longest : maxLength = 258 := rfl
  fun_induction Scan.run a stop s with
  | case1 s more ih =>
    rw [Scan.run, if_pos more, h.step_append b (by omega)]
    exact ih (h.step (by omega))
  | case2 s done => rw [Scan.run, if_neg done]

/-! ## §3. Pieces. -/

namespace Encoder

/-- **Two pieces are to a writer what both are as one.** -/
theorem write_write (a b : ByteArray) : (start.write a).write b = start.write (a ++ b) := by
  have longest : maxLength = 258 := rfl
  have first : Scan.start.run (a ++ b) (a.size + 1 - maxLength)
      = Scan.start.run a (a.size + 1 - maxLength) := by
    rcases Nat.lt_or_ge (a.size + 1) maxLength with short | enough
    · rw [Nat.sub_eq_zero_of_le (Nat.le_of_lt short), Scan.run_of_le _ (Nat.zero_le _),
        Scan.run_of_le _ (Nat.zero_le _)]
    · exact (Scan.sound_start a).run_append b (by omega)
  have further : a.size + 1 - maxLength ≤ (a ++ b).size + 1 - maxLength := by
    rw [ByteArray.size_append]
    omega
  have text : ByteArray.empty ++ a = a := ByteArray.empty_append
  have whole : ByteArray.empty ++ (a ++ b) = a ++ b := ByteArray.empty_append
  simp only [start, write, text, whole, ← first, Scan.run_run (a ++ b) further]

theorem write_empty : start.write ByteArray.empty = start := by
  have text : ByteArray.empty ++ ByteArray.empty = ByteArray.empty := ByteArray.empty_append
  have stay : Scan.start.run ByteArray.empty (ByteArray.empty.size + 1 - maxLength) = Scan.start :=
    Scan.run_of_le _ (Nat.zero_le _)
  simp only [start, write, text, stay]

end Encoder
end ArtifactCourier.Deflate
