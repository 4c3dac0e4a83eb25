/-
  ArtifactCourier.Proofs.Deflate.RoundTrip
  ──────────────────────────────────────
  **A compressed text expands to the text.**

  `Scan.Sound` is the invariant of the scan: its stretch holds tokens for the text from behind
  the blocks up to the place that is looked at, or up to the one before if a repetition is held
  there, and whatever blocks complete the text behind those that are written complete it from
  the beginning.  Every step keeps it (`Scan.Sound.step`), so that it holds at the end
  (`Scan.Sound.run`), where nothing is held any more and the stretch is the last block.

  `decode?_encode` puts the blocks into bytes: what follows the stream is found again, behind
  the zeros that fill its last byte.
-/
import ArtifactCourier.Proofs.Deflate.Blocks
import ArtifactCourier.Proofs.Deflate.Matches

namespace ArtifactCourier.Deflate

/-! ## §1. Sizes. -/

namespace Token

theorem copyFrom_spec (distance n : Nat) (out : ByteArray) :
    ∃ more, copyFrom distance n out = out ++ more ∧ more.size = n := by
  induction n generalizing out with
  | zero => exact ⟨ByteArray.empty, ByteArray.append_empty.symm, rfl⟩
  | succ n ih =>
    let b := byteAt out (out.size - distance)
    obtain ⟨more, grown, size⟩ := ih (out.push b)
    refine ⟨ByteArray.mk #[b] ++ more, ?_, ?_⟩
    · have first : out.push b = out ++ ByteArray.mk #[b] := by
        apply ByteArray.ext
        simp [ByteArray.data_append, ByteArray.data_push]
      rw [copyFrom, grown, first, ByteArray.append_assoc]
    · have one : (ByteArray.mk #[b]).size = 1 := rfl
      rw [ByteArray.size_append, size, one, Nat.add_comm]

/-- A token puts as many bytes behind the text as it stands for. -/
theorem append?_spec {t : Token} {out grown : ByteArray} (h : t.append? out = some grown) :
    ∃ more, grown = out ++ more ∧ more.size = t.length := by
  cases t with
  | byte b =>
    cases h
    refine ⟨ByteArray.mk #[b], ?_, rfl⟩
    apply ByteArray.ext
    simp [ByteArray.data_append, ByteArray.data_push]
  | copy n distance =>
    rw [append?] at h
    split at h
    case isTrue =>
      cases h
      exact copyFrom_spec distance n out
    case isFalse => cases h

/-- Tokens put as many bytes behind the text as they stand for. -/
theorem expand_extends {tokens : List Token} {out whole : ByteArray}
    (h : tokens.foldlM append? out = some whole) :
    ∃ more, whole = out ++ more ∧ more.size = (tokens.map length).sum := by
  induction tokens generalizing out with
  | nil =>
    cases h
    exact ⟨ByteArray.empty, ByteArray.append_empty.symm, rfl⟩
  | cons t tokens ih =>
    rw [List.foldlM_cons] at h
    obtain ⟨grown, append, h⟩ := Option.bind_eq_some_iff.1 h
    obtain ⟨first, rfl, first_size⟩ := append?_spec append
    obtain ⟨more, rfl, more_size⟩ := ih h
    refine ⟨first ++ more, ByteArray.append_assoc, ?_⟩
    rw [ByteArray.size_append, first_size, more_size, List.map_cons, List.sum_cons]

end Token

/-! ## §2. Stretches. -/

namespace Matches.Stretch

variable (s : Stretch) (tokens : List Token)

@[simp] theorem first_addAll : (s.addAll tokens).first = s.first := by
  induction tokens generalizing s with
  | nil => rfl
  | cons t tokens ih => exact ih (s.add t)

@[simp] theorem toList_tokens_addAll :
    (s.addAll tokens).tokens.toList = s.tokens.toList ++ tokens := by
  induction tokens generalizing s with
  | nil => simp [addAll]
  | cons t tokens ih =>
    have step : (s.add t).tokens.toList = s.tokens.toList ++ [t] := by simp [add]
    have later := ih (s.add t)
    rw [step, List.append_assoc, List.singleton_append] at later
    exact later

/-- A stretch counts the bytes that its tokens stand for. -/
@[simp] theorem stop_addAll :
    (s.addAll tokens).stop = s.stop + (tokens.map Token.length).sum := by
  induction tokens generalizing s with
  | nil => simp [addAll]
  | cons t tokens ih =>
    have step : (s.add t).stop = s.stop + t.length := (Nat.add_assoc ..).symm
    have later := ih (s.add t)
    rw [step, Nat.add_assoc] at later
    rw [List.map_cons, List.sum_cons]
    exact later

end Matches.Stretch

/-- A stretch without tokens. -/
theorem covers_startingAt {data : ByteArray} {first : Nat} (inside : first ≤ data.size) :
    Covers data (.startingAt first) := ⟨by simp [Matches.Stretch.startingAt], rfl, inside⟩

/-- **The tokens of a decision continue a stretch.** -/
theorem Covers.addAll {data : ByteArray} {s : Matches.Stretch} (h : Covers data s)
    {d : Matches.Decision} (sound : d.Sound data s.stop) :
    Covers data (s.addAll d.tokens)
      ∧ (s.addAll d.tokens).stop = Matches.reached d.next d.held := by
  have inside : Matches.reached d.next d.held ≤ data.size :=
    Nat.le_trans (by cases d.held <;> simp [Matches.reached]) sound.inside
  have stop : (s.addAll d.tokens).stop = Matches.reached d.next d.held := by
    obtain ⟨more, whole, size⟩ := Token.expand_extends sound.expands
    have total := congrArg ByteArray.size whole
    rw [ByteArray.size_append, size, size_extract_zero h.inside, size_extract_zero inside] at total
    rw [Matches.Stretch.stop_addAll, total]
  refine ⟨⟨?_, ?_, stop ▸ inside⟩, stop⟩
  · rw [Matches.Stretch.toList_tokens_addAll]
    exact List.forall_mem_append.2 ⟨h.fits, sound.fits⟩
  · rw [Matches.Stretch.toList_tokens_addAll, Matches.Stretch.first_addAll, List.foldlM_append,
      h.expands, stop]
    exact sound.expands

/-! ## §3. Scanning. -/

/-- What follows the blocks of a writer completes the text from the beginning if it completes it
behind its first `done` bytes. -/
def Continues (data : ByteArray) (out : BitWriter) (done : Nat) : Prop :=
  ∀ v, PutsBlocks out v (data.extract 0 done) data → PutsBlocks .empty v ByteArray.empty data

/-- **The invariant of the scan.** -/
structure Scan.Sound (data : ByteArray) (s : Scan) : Prop where
  settled : s.out.Settled
  continues : Continues data s.out s.stretch.first
  covers : Covers data s.stretch
  stop : s.stretch.stop = Matches.reached s.place s.held
  inside : s.place ≤ data.size
  holds : Matches.Holds data s.place s.held

theorem Scan.sound_start (data : ByteArray) : Scan.start.Sound data := by
  refine ⟨BitWriter.settled_empty, fun v complete => ?_, covers_startingAt (Nat.zero_le _), rfl,
    Nat.zero_le _, Matches.holds_none _ _⟩
  have nothing : data.extract 0 Scan.start.stretch.first = ByteArray.empty :=
    ByteArray.extract_same
  rwa [nothing] at complete

/-- A stretch that is full becomes a block, and the next one begins behind it. -/
theorem sound_closeIfFull {data : ByteArray} {out : BitWriter} {s : Matches.Stretch}
    (settled : out.Settled) (continues : Continues data out s.first) (covers : Covers data s) :
    let closed := closeIfFull out data s
    closed.2.Settled ∧ Continues data closed.2 closed.1.first ∧ Covers data closed.1
      ∧ closed.1.stop = s.stop := by
  dsimp only
  rw [closeIfFull]
  split
  case isTrue =>
    have block := putsBlock_stretch settled false covers
    exact ⟨block.settled, fun v complete => continues v (block.cons complete),
      covers_startingAt covers.inside, rfl⟩
  case isFalse => exact ⟨settled, continues, covers, rfl⟩

/-- **A look at one place keeps the invariant.** -/
theorem Scan.Sound.step {data : ByteArray} {s : Scan} (h : s.Sound data)
    (later : s.place < data.size) : (s.step data).Sound data := by
  obtain ⟨settled, continues, covers, stop, -, holds⟩ := h
  have decision := Matches.sound_decide (s.chains.addUpTo data s.place) later holds
  rw [← stop] at decision
  obtain ⟨covers, reached⟩ := covers.addAll decision
  have first := s.stretch.first_addAll
    (Matches.decide (s.chains.addUpTo data s.place) data s.place s.held).tokens
  obtain ⟨settled, continues, covers, same⟩ :=
    sound_closeIfFull settled (first.symm ▸ continues) covers
  exact ⟨settled, continues, covers, same.trans reached, decision.inside, decision.holds⟩

/-- **Looking at all places up to one keeps it.** -/
theorem Scan.Sound.run {data : ByteArray} {stop : Nat} {s : Scan} (h : s.Sound data)
    (inside : stop ≤ data.size) : (s.run data stop).Sound data := by
  fun_induction Scan.run data stop s with
  | case1 s more ih => exact ih (h.step (Nat.lt_of_lt_of_le more inside))
  | case2 s done => exact h

theorem Scan.le_place_run (data : ByteArray) (stop : Nat) (s : Scan) :
    stop ≤ (s.run data stop).place := by
  fun_induction Scan.run data stop s with
  | case1 s more ih => exact ih
  | case2 s done => exact Nat.le_of_not_lt done

theorem Scan.run_of_le (data : ByteArray) {stop : Nat} {s : Scan} (h : stop ≤ s.place) :
    s.run data stop = s := by
  rw [Scan.run, if_neg (Nat.not_lt_of_le h)]

/-- Looking further is looking at the places up to one first. -/
theorem Scan.run_run (data : ByteArray) {m n : Nat} (order : m ≤ n) (s : Scan) :
    (s.run data m).run data n = s.run data n := by
  fun_induction Scan.run data m s with
  | case1 s more ih =>
    rw [ih, Scan.run.eq_1 data n s, if_pos (Nat.lt_of_lt_of_le more order)]
  | case2 s done => rfl

/-- **At the end the stretch is the last block**: nothing is held any more. -/
theorem Scan.Sound.putsBlocks {data : ByteArray} {s : Scan} (h : s.Sound data)
    (last : data.size ≤ s.place) :
    PutsBlocks .empty (putStretch s.out true data s.stretch) ByteArray.empty data := by
  have all : s.stretch.stop = data.size := by
    rw [h.stop]
    cases held : s.held with
    | none => exact Nat.le_antisymm h.inside last
    | some m =>
      -- A repetition is longer than what is left of the text.
      obtain ⟨later, repeats⟩ := h.holds m held
      have long : 3 ≤ m.length := repeats.long
      have inside := repeats.inside
      omega
  have block := putsBlock_stretch h.settled true h.covers
  rw [all, ByteArray.extract_zero_size] at block
  exact h.continues _ block.last

/-! ## §4. The stream in bytes. -/

/-- The writer of a whole text, before the last byte is filled. -/
def lastWriter (data : ByteArray) : BitWriter :=
  let scan := Scan.start.run data data.size
  putStretch scan.out true data scan.stretch

/-- **What is written for a text is read as the text.** -/
theorem putsBlocks_lastWriter (data : ByteArray) :
    PutsBlocks .empty (lastWriter data) ByteArray.empty data :=
  ((Scan.sound_start data).run le_rfl).putsBlocks (Scan.le_place_run data data.size _)

theorem encode_eq_finish (data : ByteArray) : encode data = (lastWriter data).finish := by
  have text : ByteArray.empty ++ data = data := ByteArray.empty_append
  have order : data.size + 1 - maxLength ≤ data.size := by
    simp only [maxLength]
    omega
  simp only [encode, Encoder.start, Encoder.write, Encoder.finish, text, Scan.run_run data order,
    lastWriter]

/-- **A compressed text expands to the text, and what follows it is found again.** -/
theorem decode?_encode (data ending : ByteArray) :
    decode? (encode data ++ ending) = some (data, ending) := by
  have blocks := putsBlocks_lastWriter data
  obtain ⟨stream, written, -, reads⟩ := blocks.wrote
  obtain ⟨few, at_most_seven, finished⟩ := BitWriter.bitsOf_finish blocks.settled
  have bits : bitsOf (encode data ++ ending)
      = stream ++ (List.replicate few false ++ bitsOf ending) := by
    rw [bitsOf_append, encode_eq_finish, finished, written, BitWriter.written_empty,
      List.nil_append, List.append_assoc]
  have whole_bytes : 8 ∣ ((lastWriter data).written
      ++ (List.replicate few false ++ bitsOf ending)).length := by
    rw [written, BitWriter.written_empty, List.nil_append, ← bits, length_bitsOf]
    exact ⟨_, rfl⟩
  have room : stream.length ≤ (bitsOf (encode data ++ ending)).length := by
    rw [bits, List.length_append]
    exact Nat.le_add_right _ _
  have read := reads _ _ _ whole_bytes room room
  -- What is left are the bits that fill the last byte, and whole bytes behind it.
  have behind : (List.replicate few false ++ bitsOf ending).length / 8 = ending.size := by
    rw [List.length_append, List.length_replicate, length_bitsOf]
    omega
  have split : (encode data ++ ending).size - ending.size = (encode data).size := by
    rw [ByteArray.size_append, Nat.add_sub_cancel]
  have found : (encode data ++ ending).extract (encode data).size (encode data ++ ending).size
      = ending := ByteArray.extract_append_eq_right rfl ByteArray.size_append
  rw [← bits] at read
  simp only [decode?, read, behind, split, found, Option.bind_eq_bind, Option.bind_some]

end ArtifactCourier.Deflate
