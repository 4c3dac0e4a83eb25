/-
  ArtifactCourier.Proofs.Deflate.Blocks
  ──────────────────────────────────────
  **Every block is read as the piece of text it was written for.**

  `PutsBlock w v last out whole` says what the writer of a block owes the reader: it put some
  bits behind `w`, and a reader that has `out` and finds these bits has `whole` behind them,
  whatever follows.  The three kinds of blocks meet it:

    • stored bytes (`putsBlock_stored`), which begin with a whole byte, so that what follows
      has to be known up to a multiple of eight;
    • tokens in the fixed codes or in codes of the block's own (`readBlock?_coded`).

  `PutsBlocks` is the same for several blocks up to the last one.
-/
import ArtifactCourier.Proofs.Deflate.Description

namespace ArtifactCourier.Deflate

/-! ## §1. The contract of a writer. -/

/-- `v` is `w` with a block behind it, which turns the text `out` into `whole`.  The reader gets
the bits up to the end of a byte, and has a step for each. -/
structure PutsBlock (w v : BitWriter) (last : Bool) (out whole : ByteArray) : Prop where
  settled : v.Settled
  wrote : ∃ block, v.written = w.written ++ block ∧ 0 < block.length
    ∧ ∀ rest total, 8 ∣ (v.written ++ rest).length → block.length ≤ total →
      readBlock? total out (block ++ rest) = some (last, whole, rest)

/-- `v` is `w` with blocks behind it, the last one marked, which turn `out` into `whole`. -/
structure PutsBlocks (w v : BitWriter) (out whole : ByteArray) : Prop where
  settled : v.Settled
  wrote : ∃ blocks, v.written = w.written ++ blocks ∧ 0 < blocks.length
    ∧ ∀ rest total steps, 8 ∣ (v.written ++ rest).length → blocks.length ≤ total →
      blocks.length ≤ steps →
      readBlocks? total steps out (blocks ++ rest) = some (whole, rest)

/-- The marked block is the last one. -/
theorem PutsBlock.last {w v : BitWriter} {out whole : ByteArray}
    (h : PutsBlock w v true out whole) : PutsBlocks w v out whole := by
  obtain ⟨block, written, long, reads⟩ := h.wrote
  refine ⟨h.settled, block, written, long, fun rest total steps whole_bytes room enough => ?_⟩
  obtain ⟨steps, rfl⟩ : ∃ n, steps = n + 1 := ⟨steps - 1, by omega⟩
  simp [readBlocks?, reads rest total whole_bytes room]

/-- A block that is not marked, and the blocks behind it. -/
theorem PutsBlock.cons {w v u : BitWriter} {out mid whole : ByteArray}
    (first : PutsBlock w v false out mid) (later : PutsBlocks v u mid whole) :
    PutsBlocks w u out whole := by
  obtain ⟨block, first_written, long, first_reads⟩ := first.wrote
  obtain ⟨blocks, later_written, -, later_reads⟩ := later.wrote
  -- The other blocks are what the first one has behind it.
  refine ⟨later.settled, block ++ blocks, by rw [later_written, first_written, List.append_assoc],
    ?_, fun rest total steps whole_bytes room enough => ?_⟩
  · rw [List.length_append]
    omega
  · rw [List.length_append] at room enough
    obtain ⟨steps, rfl⟩ : ∃ n, steps = n + 1 := ⟨steps - 1, by omega⟩
    have same_bits : 8 ∣ (v.written ++ (blocks ++ rest)).length := by
      rw [← List.append_assoc, ← later_written]
      exact whole_bytes
    have head := first_reads (blocks ++ rest) total same_bits (by omega)
    have tail := later_reads rest total steps whole_bytes (by omega) (by omega)
    simp [List.append_assoc, readBlocks?, head, tail]

/-- The mark of the last block. -/
theorem takeNumber_lastField (last : Bool) (rest : List Bool) :
    takeNumber 1 ((lastField last).bits ++ rest) = some (last.toNat, rest) :=
  takeNumber_of_lt (by cases last <;> decide) rest

theorem decide_toNat_eq_one (last : Bool) : decide (last.toNat = 1) = last := by
  cases last <;> rfl

/-! ## §2. Stored blocks. -/

theorem readStored?_bits (bytes : List UInt8) (out : ByteArray) (rest : List Bool) :
    readStored? bytes.length out (bytes.flatMap bitsOfByte ++ rest)
      = some (out ++ ByteArray.mk bytes.toArray, rest) := by
  induction bytes generalizing out with
  | nil =>
    have same : out ++ ByteArray.mk #[] = out := ByteArray.append_empty
    simp [readStored?, same]
  | cons b bytes ih =>
    have fits : b.toNat < 2 ^ 8 := b.toNat_lt
    have byte : bitsOfByte b = (BitField.mk b.toNat 8).bits := rfl
    have grown : out.push b ++ ByteArray.mk bytes.toArray
        = out ++ ByteArray.mk (b :: bytes).toArray := by
      apply ByteArray.ext
      simp [ByteArray.data_append, ByteArray.data_push]
    simp only [List.flatMap_cons, List.append_assoc, byte, List.length_cons, readStored?,
      takeNumber_of_lt fits, bind, Option.bind]
    rw [show b.toNat.toUInt8 = b from UInt8.ofNat_toNat, ih, grown]

/-- Stored bytes are read as they are. -/
theorem readStored?_bitsOf (piece out : ByteArray) (rest : List Bool) :
    readStored? piece.size out (bitsOf piece ++ rest) = some (out ++ piece, rest) := by
  rw [bitsOf_eq, toList_eq]
  exact readStored?_bits piece.data.toList out rest

namespace BitWriter

/-- Whole bytes stay whole when whole bytes are put. -/
theorem count_put_of_dvd {w : BitWriter} (hw : w.Settled) (whole : w.count = 0) {f : BitField}
    (hf : 8 ∣ f.width) : (w.put f).count = 0 := by
  have total := length_written (w.put f)
  rw [written_put hw, List.length_append, length_written, BitField.length_bits] at total
  have few := (hw.put f).few
  simp only [bitCount] at total
  omega

end BitWriter

/-- What is left of a byte is dropped where whole bytes follow. -/
theorem drop_padding {padding rest : List Bool} (few : padding.length < 8)
    (whole : 8 ∣ rest.length) : (padding ++ rest).drop ((padding ++ rest).length % 8) = rest := by
  have left_over : (padding ++ rest).length % 8 = padding.length := by
    rw [List.length_append]
    omega
  rw [left_over, List.drop_left]

/-- The two fields in front of stored bytes: their number, and what is missing to the greatest. -/
def sizeBits (n : Nat) : List Bool :=
  (BitField.mk n 16).bits ++ (BitField.mk (maxStored - n) 16).bits

/-- **A stored block is read as its bytes**, if they begin with a whole byte of the stream. -/
theorem readBlock?_stored (last : Bool) {piece : ByteArray} (fits : piece.size ≤ maxStored)
    {padding rest : List Bool} (few : padding.length < 8)
    (whole : 8 ∣ (sizeBits piece.size ++ (bitsOf piece ++ rest)).length) (total : Nat)
    (out : ByteArray) :
    readBlock? total out ((lastField last).bits ++ ((BitField.mk 0 2).bits
      ++ (padding ++ (sizeBits piece.size ++ (bitsOf piece ++ rest)))))
      = some (last, out ++ piece, rest) := by
  have size_fits : piece.size < 2 ^ 16 := by
    simp only [maxStored] at fits
    omega
  have complement_fits : maxStored - piece.size < 2 ^ 16 := by
    simp only [maxStored]
    omega
  have sum : piece.size + (maxStored - piece.size) = 0xFFFF := Nat.add_sub_cancel' fits
  have kind (rest : List Bool) : takeNumber 2 ((BitField.mk 0 2).bits ++ rest) = some (0, rest) :=
    takeNumber_of_lt (by decide) rest
  have size (rest : List Bool) :
      takeNumber 16 (sizeBits piece.size ++ rest)
        = some (piece.size, (BitField.mk (maxStored - piece.size) 16).bits ++ rest) := by
    rw [sizeBits, List.append_assoc]
    exact takeNumber_of_lt size_fits _
  have complement (rest : List Bool) :
      takeNumber 16 ((BitField.mk (maxStored - piece.size) 16).bits ++ rest)
        = some (maxStored - piece.size, rest) := takeNumber_of_lt complement_fits rest
  simp only [readBlock?, takeNumber_lastField, kind, drop_padding few whole, size, complement, sum,
    readStored?_bitsOf, decide_toNat_eq_one, Option.bind_eq_bind,
    Option.bind_some, if_true]

/-- **The writer of a stored block keeps its contract.** -/
theorem putsBlock_stored {w : BitWriter} (hw : w.Settled) (last : Bool) {data : ByteArray}
    {first stop : Nat} (inside : stop ≤ data.size) (fits : stop - first ≤ maxStored)
    (out : ByteArray) :
    PutsBlock w (putStored w last data first stop) last out (out ++ data.extract first stop) := by
  -- the writer behind the mark and the kind, behind the padding, and behind both sizes
  let marked := (w.put (lastField last)).put ⟨0, 2⟩
  let aligned := marked.put marked.padding
  let sized := (aligned.put ⟨stop - first, 16⟩).put ⟨maxStored - (stop - first), 16⟩
  let piece := data.extract first stop
  have length : piece.size = stop - first := by
    simp only [piece, ByteArray.size_extract, Nat.min_eq_left inside]
  have hmarked : marked.Settled := (hw.put _).put _
  have haligned : aligned.Settled := hmarked.put _
  have hsized : sized.Settled := (haligned.put _).put _
  have aligned_whole : aligned.count = 0 := BitWriter.count_put_padding hmarked
  have sized_whole : sized.count = 0 :=
    BitWriter.count_put_of_dvd (haligned.put _)
      (BitWriter.count_put_of_dvd haligned aligned_whole ⟨2, rfl⟩) ⟨2, rfl⟩
  have aligned_written : aligned.written
      = w.written ++ ((lastField last).bits ++ (BitField.mk 0 2).bits) ++ marked.padding.bits := by
    rw [BitWriter.written_put hmarked, BitWriter.written_put (hw.put _), BitWriter.written_put hw,
      List.append_assoc w.written]
  have sized_written : sized.written = aligned.written ++ sizeBits piece.size := by
    rw [BitWriter.written_put (haligned.put _), BitWriter.written_put haligned, List.append_assoc,
      length]
    rfl
  have written : (putStored w last data first stop).written
      = aligned.written ++ sizeBits piece.size ++ bitsOf piece := by
    rw [← sized_written]
    exact BitWriter.written_append sized_whole piece
  have aligned_length : 8 ∣ aligned.written.length := by
    rw [BitWriter.length_written, BitWriter.bitCount, aligned_whole]
    exact ⟨_, rfl⟩
  have few : marked.padding.bits.length < 8 := by
    rw [BitField.length_bits]
    exact Nat.mod_lt _ (by decide)
  refine ⟨⟨hsized.few, hsized.low⟩, (lastField last).bits ++ ((BitField.mk 0 2).bits
    ++ (marked.padding.bits ++ (sizeBits piece.size ++ bitsOf piece))), ?_, ?_, ?_⟩
  · rw [written, aligned_written]
    simp only [List.append_assoc]
  · rw [List.length_append, BitField.length_bits]
    exact Nat.lt_of_lt_of_le Nat.one_pos (Nat.le_add_right 1 _)
  · intro rest total whole_bytes _
    have behind : 8 ∣ (sizeBits piece.size ++ (bitsOf piece ++ rest)).length := by
      rw [written] at whole_bytes
      simp only [List.length_append] at whole_bytes ⊢
      omega
    simp only [List.append_assoc]
    exact readBlock?_stored last (length ▸ fits) few behind total out

/-! ## §3. Words for every token. -/

/-- The trees of lengths whose words have room, and what they read. -/
theorem exists_trees {literals distances : List Nat} (hl : HaveRoom maxWordLength literals)
    (hd : HaveRoom maxWordLength distances) :
    ∃ trees, BlockTrees.ofLengths? literals distances = some trees
      ∧ (∀ symbol, literals.getD symbol 0 ≠ 0 →
          (BlockWords.ofLengths literals distances).literals.Reads trees.literals symbol)
      ∧ ∀ symbol, distances.getD symbol 0 ≠ 0 →
          (BlockWords.ofLengths literals distances).distances.Reads trees.distances symbol := by
  obtain ⟨l, built_l, read_l⟩ := exists_tree hl
  obtain ⟨d, built_d, read_d⟩ := exists_tree hd
  exact ⟨⟨l, d⟩, by simp [BlockTrees.ofLengths?, built_l, built_d], read_l, read_d⟩

/-- There is a length for each symbol of a token. -/
def Token.HasLengths (literals distances : Nat → Nat) : Token → Prop
  | .byte b => literals b.toNat ≠ 0
  | .copy length distance =>
    literals (lengthSymbol length).1 ≠ 0 ∧ distances (distanceSymbol distance).1 ≠ 0

/-- **Codes that the tokens of a block have words in**, and whose words have room. -/
structure Serves (literals distances : List Nat) (tokens : List Token) : Prop where
  literal_room : HaveRoom maxWordLength literals
  distance_room : HaveRoom maxWordLength distances
  each : ∀ t ∈ tokens, t.HasLengths (literals.getD · 0) (distances.getD · 0)
  ending : literals.getD endOfBlock 0 ≠ 0

/-- **The tokens of a block are read in codes that serve them.** -/
theorem Serves.readTokens? {literals distances : List Nat} {tokens : List Token}
    (h : Serves literals distances tokens) (fits : ∀ t ∈ tokens, t.Fits) {out whole : ByteArray}
    (expands : tokens.foldlM Token.append? out = some whole) :
    ∃ trees, BlockTrees.ofLengths? literals distances = some trees
      ∧ ∀ rest steps,
          (bitsOfFields (tokensFields (.ofLengths literals distances) tokens)).length ≤ steps →
          readTokens? trees steps out
            (bitsOfFields (tokensFields (.ofLengths literals distances) tokens) ++ rest)
              = some (whole, rest) := by
  obtain ⟨trees, built, literal, distance⟩ := exists_trees h.literal_room h.distance_room
  refine ⟨trees, built, fun rest steps enough =>
    readTokens?_fields fits (fun t ht => ?_) (literal _ h.ending) expands rest enough⟩
  have lengths := h.each t ht
  cases t with
  | byte b => exact literal _ lengths
  | copy n d => exact ⟨literal _ lengths.1, distance _ lengths.2⟩

theorem length_ranges : lengthRanges.length = 29 ∧ distanceRanges.length = 30 := by decide

/-- The symbol of a length is one of the first code. -/
theorem lengthSymbol_lt {length : Nat} (lower : minLength ≤ length) (upper : length ≤ maxLength) :
    (lengthSymbol length).1 < 286 := by
  obtain ⟨i, r, symbol, lies⟩ := lengthSymbol_spec lower upper
  have inside := (List.getElem?_eq_some_iff.1 lies.place).1
  rw [length_ranges.1] at inside
  simp only [symbol, firstLengthSymbol]
  omega

/-- The symbol of a distance is one of the second code. -/
theorem distanceSymbol_lt {distance : Nat} (lower : 1 ≤ distance) (upper : distance ≤ maxDistance) :
    (distanceSymbol distance).1 < 30 := by
  obtain ⟨i, r, symbol, lies⟩ := distanceSymbol_spec lower upper
  have inside := (List.getElem?_eq_some_iff.1 lies.place).1
  rw [length_ranges.2] at inside
  rwa [symbol]

theorem byte_lt (b : UInt8) : b.toNat < 256 := b.toNat_lt

/-- A place in a list without zeros. -/
theorem getD_ne_zero_of_lt {ns : List Nat} (positive : ∀ n ∈ ns, n ≠ 0) {i : Nat}
    (hi : i < ns.length) : ns.getD i 0 ≠ 0 := by
  have there : ns.getD i 0 = ns[i] := by simp [List.getD, hi]
  rw [there]
  exact positive _ (List.getElem_mem hi)

/-- **The fixed codes serve all tokens.** -/
theorem serves_fixed {tokens : List Token} (fits : ∀ t ∈ tokens, t.Fits) :
    Serves fixedLiteralLengths fixedDistanceLengths tokens := by
  have literal {symbol : Nat} (h : symbol < 288) : fixedLiteralLengths.getD symbol 0 ≠ 0 := by
    have count : fixedLiteralLengths.length = 288 := by
      simp only [fixedLiteralLengths, List.length_append, List.length_replicate]
    refine getD_ne_zero_of_lt (fun n hn => ?_) (count ▸ h)
    simp only [fixedLiteralLengths, List.mem_append, List.mem_replicate] at hn
    omega
  have distance {symbol : Nat} (h : symbol < 32) : fixedDistanceLengths.getD symbol 0 ≠ 0 := by
    have count : fixedDistanceLengths.length = 32 := List.length_replicate
    refine getD_ne_zero_of_lt (fun n hn => ?_) (count ▸ h)
    simp only [fixedDistanceLengths, List.mem_replicate] at hn
    omega
  refine ⟨⟨fun n hn => ?_, ?_⟩, ⟨fun n hn => ?_, ?_⟩, fun t ht => ?_, literal (by decide)⟩
  · simp only [fixedLiteralLengths, List.mem_append, List.mem_replicate] at hn
    simp only [maxWordLength]
    omega
  · simp only [fixedLiteralLengths, List.map_append, List.map_replicate, List.sum_append,
      List.sum_replicate_nat]
    decide
  · simp only [fixedDistanceLengths, List.mem_replicate] at hn
    simp only [maxWordLength]
    omega
  · simp only [fixedDistanceLengths, List.map_replicate, List.sum_replicate_nat]
    decide
  · have fit := fits t ht
    cases t with
    | byte b => exact literal (Nat.lt_trans (byte_lt b) (by decide))
    | copy n d =>
      obtain ⟨shortest, longest, nearest, farthest⟩ := fit
      exact ⟨literal (Nat.lt_trans (lengthSymbol_lt shortest longest) (by decide)),
        distance (Nat.lt_trans (distanceSymbol_lt nearest farthest) (by decide))⟩

/-! ## §4. Codes of its own for a block. -/

/-- The numbers of symbols that are counted. -/
def Frequencies.Sized (f : Frequencies) : Prop := f.literals.size = 286 ∧ f.distances.size = 30

theorem Frequencies.sized_start : start.Sized := ⟨by simp [start], by simp [start]⟩

theorem Frequencies.Sized.count {f : Frequencies} (h : f.Sized) (t : Token) : (f.count t).Sized := by
  obtain ⟨hl, hd⟩ := h
  cases t with
  | byte b => exact ⟨Array.size_modify.trans hl, hd⟩
  | copy n d => exact ⟨Array.size_modify.trans hl, Array.size_modify.trans hd⟩

/-- Counting a token keeps what was counted before. -/
theorem Frequencies.count_kept (f : Frequencies) (t : Token) :
    (∀ symbol, f.literals.getD symbol 0 ≠ 0 → (f.count t).literals.getD symbol 0 ≠ 0)
      ∧ ∀ symbol, f.distances.getD symbol 0 ≠ 0 → (f.count t).distances.getD symbol 0 ≠ 0 := by
  cases t with
  | byte b => exact ⟨fun _ => getD_modify_ne_zero _, fun _ => id⟩
  | copy n d => exact ⟨fun _ => getD_modify_ne_zero _, fun _ => getD_modify_ne_zero _⟩

/-- The symbols of a token are counted. -/
theorem Frequencies.Sized.hasLengths {f : Frequencies} (h : f.Sized) {t : Token} (fits : t.Fits) :
    t.HasLengths ((f.count t).literals.getD · 0) ((f.count t).distances.getD · 0) := by
  obtain ⟨hl, hd⟩ := h
  cases t with
  | byte b =>
    exact getD_modify_self_ne_zero (hl ▸ Nat.lt_trans (byte_lt b) (by decide))
  | copy n d =>
    obtain ⟨shortest, longest, nearest, farthest⟩ := fits
    exact ⟨getD_modify_self_ne_zero (hl ▸ lengthSymbol_lt shortest longest),
      getD_modify_self_ne_zero (hd ▸ distanceSymbol_lt nearest farthest)⟩

theorem sized_frequencies (tokens : List Token) : (frequencies tokens).Sized :=
  List.foldlRecOn (motive := Frequencies.Sized) tokens _ Frequencies.sized_start
    fun _ sized t _ => sized.count t

/-- **The symbols of all tokens are counted.** -/
theorem hasLengths_frequencies {tokens : List Token} {t : Token} (ht : t ∈ tokens)
    (fits : t.Fits) :
    t.HasLengths ((frequencies tokens).literals.getD · 0)
      ((frequencies tokens).distances.getD · 0) := by
  rw [frequencies]
  refine foldl_counts Frequencies.Sized
    (fun f => t.HasLengths (f.literals.getD · 0) (f.distances.getD · 0)) (fun _ u sized => sized.count u)
    (fun f u seen => ?_) (fun _ sized => sized.hasLengths fits) ht Frequencies.sized_start
  obtain ⟨literals, distances⟩ := f.count_kept u
  cases t with
  | byte b => exact literals _ seen
  | copy n d => exact ⟨literals _ seen.1, distances _ seen.2⟩

theorem frequencies_endOfBlock (tokens : List Token) :
    (frequencies tokens).literals.getD endOfBlock 0 ≠ 0 :=
  List.foldlRecOn (motive := fun f => f.literals.getD endOfBlock 0 ≠ 0) tokens Frequencies.count
    (by simp [Frequencies.start, endOfBlock]) fun f seen t _ => (f.count_kept t).1 _ seen

/-- Zeros at the end of a list do not matter. -/
theorem getD_withoutTail (least : Nat) (ns : List Nat) (i : Nat) :
    (withoutTail least ns).getD i 0 = ns.getD i 0 := by
  obtain ⟨left, split⟩ := withoutTail_spec least ns
  conv_rhs => rw [split]
  rcases Nat.lt_or_ge i (withoutTail least ns).length with inside | outside
  · simp only [List.getD, List.getElem?_append_left inside]
  · simp only [List.getD, List.getElem?_append_right outside, List.getElem?_eq_none outside,
      List.getElem?_replicate]
    split <;> rfl

theorem haveRoom_withoutTail {limit least : Nat} {ns : List Nat} (h : HaveRoom limit ns) :
    HaveRoom limit (withoutTail least ns) := by
  obtain ⟨short, room⟩ := h
  obtain ⟨left, split⟩ := withoutTail_spec least ns
  refine ⟨fun n hn => short n (mem_of_mem_withoutTail hn), ?_⟩
  rw [split, List.map_append, List.sum_append] at room
  exact Nat.le_trans (Nat.le_add_right _ _) room

section OwnLengths

variable {tokens : List Token}

theorem sizes_small (tokens : List Token) :
    (frequencies tokens).literals.size ≤ 2 ^ maxWordLength
      ∧ (frequencies tokens).distances.size ≤ 2 ^ maxWordLength := by
  obtain ⟨hl, hd⟩ := sized_frequencies tokens
  rw [hl, hd]
  decide

/-- **The codes made for the tokens of a block serve them.** -/
theorem serves_ownLengths (fits : ∀ t ∈ tokens, t.Fits) :
    Serves (ownLengths tokens).1 (ownLengths tokens).2 tokens := by
  have limit : 1 ≤ maxWordLength := by decide
  obtain ⟨few_literals, few_distances⟩ := sizes_small tokens
  have literal {symbol : Nat} (h : (frequencies tokens).literals.getD symbol 0 ≠ 0) :
      (ownLengths tokens).1.getD symbol 0 ≠ 0 := by
    rw [ownLengths, getD_withoutTail]
    exact Lengths.ofFrequencies_ne_zero limit few_literals h
  have distance {symbol : Nat} (h : (frequencies tokens).distances.getD symbol 0 ≠ 0) :
      (ownLengths tokens).2.getD symbol 0 ≠ 0 := by
    rw [ownLengths, getD_withoutTail]
    exact Lengths.ofFrequencies_ne_zero limit few_distances h
  refine ⟨haveRoom_withoutTail (Lengths.haveRoom_ofFrequencies limit few_literals),
    haveRoom_withoutTail (Lengths.haveRoom_ofFrequencies limit few_distances), fun t ht => ?_,
    literal (frequencies_endOfBlock tokens)⟩
  have counted := hasLengths_frequencies ht (fits t ht)
  cases t with
  | byte b => exact literal counted
  | copy n d => exact ⟨literal counted.1, distance counted.2⟩

/-- A description has room for their lengths. -/
theorem counted_ownLengths (tokens : List Token) :
    Counted (ownLengths tokens).1 (ownLengths tokens).2 := by
  have limit : 1 ≤ maxWordLength := by decide
  obtain ⟨hl, hd⟩ := sized_frequencies tokens
  obtain ⟨few_literals, few_distances⟩ := sizes_small tokens
  have literals := (Lengths.length_ofFrequencies maxWordLength (frequencies tokens).literals).trans hl
  have distances :=
    (Lengths.length_ofFrequencies maxWordLength (frequencies tokens).distances).trans hd
  have most_literals := length_withoutTail_le minLiteralCount
    (Lengths.ofFrequencies maxWordLength (frequencies tokens).literals)
  have most_distances := length_withoutTail_le 1
    (Lengths.ofFrequencies maxWordLength (frequencies tokens).distances)
  simp only [ownLengths]
  refine ⟨le_length_withoutTail (by rw [literals]; decide), ?_,
    le_length_withoutTail (by rw [distances]; decide), by omega, fun n hn => ?_⟩
  · simp only [minLiteralCount] at most_literals ⊢
    omega
  · refine Nat.lt_succ_of_le ?_
    rcases List.mem_append.1 hn with hn | hn
    · exact (Lengths.haveRoom_ofFrequencies limit few_literals).short n (mem_of_mem_withoutTail hn)
    · exact (Lengths.haveRoom_ofFrequencies limit few_distances).short n (mem_of_mem_withoutTail hn)

end OwnLengths

/-! ## §5. Blocks of tokens. -/

/-- What the encoder knows of a stretch: its tokens can be written, and expand the text in front of
it to the text behind it. -/
structure Covers (data : ByteArray) (s : Matches.Stretch) : Prop where
  fits : ∀ t ∈ s.tokens.toList, t.Fits
  expands : s.tokens.toList.foldlM Token.append? (data.extract 0 s.first)
    = some (data.extract 0 s.stop)
  inside : s.stop ≤ data.size

/-- **A block of tokens is read as they expand**, in whichever codes it is written. -/
theorem readBlock?_coded {data : ByteArray} {s : Matches.Stretch} (h : Covers data s) (last : Bool)
    (rest : List Bool) {total : Nat} (room : (bitsOfFields (codedFields s)).length ≤ total) :
    readBlock? total (data.extract 0 s.first)
        ((lastField last).bits ++ (bitsOfFields (codedFields s) ++ rest))
      = some (last, data.extract 0 s.stop, rest) := by
  have front (f : BitField) (fields : List BitField) :
      bitsOfFields (f :: fields) = f.bits ++ bitsOfFields fields := List.flatMap_cons
  rw [codedFields] at room ⊢
  split at room
  case isTrue short =>
    rw [front, List.length_append] at room
    obtain ⟨trees, built, reads⟩ := (serves_fixed h.fits).readTokens? h.fits h.expands
    have kind (rest : List Bool) : takeNumber 2 ((BitField.mk 1 2).bits ++ rest) = some (1, rest) :=
      takeNumber_of_lt (by decide) rest
    have read := reads rest total (Nat.le_trans (Nat.le_add_left _ _) room)
    rw [if_pos short, front]
    simp [readBlock?, takeNumber_lastField, kind, fixedTrees?, built, fixedWords, read]
  case isFalse long =>
    let lengths := ownLengths s.tokens.toList
    rw [front, ownCodeFields, bitsOfFields_append, List.length_append, List.length_append] at room
    obtain ⟨trees, built, reads⟩ := (serves_ownLengths h.fits).readTokens? h.fits h.expands
    have kind (rest : List Bool) : takeNumber 2 ((BitField.mk 2 2).bits ++ rest) = some (2, rest) :=
      takeNumber_of_lt (by decide) rest
    have described (rest : List Bool) :
        readTrees? (bitsOfFields (codeFields lengths.1 lengths.2) ++ rest) = some (trees, rest) :=
      readTrees?_fields (counted_ownLengths _) built rest
    have read := reads rest total (Nat.le_trans (Nat.le_add_left _ _)
      (Nat.le_trans (Nat.le_add_left _ _) room))
    rw [if_neg long, front, ownCodeFields, bitsOfFields_append]
    simp [readBlock?, takeNumber_lastField, kind, described _, read, lengths]

/-- **A stretch is read as its piece of the text**, whether it is stored or coded. -/
theorem putsBlock_stretch {w : BitWriter} (hw : w.Settled) (last : Bool) {data : ByteArray}
    {s : Matches.Stretch} (h : Covers data s) :
    PutsBlock w (putStretch w last data s) last (data.extract 0 s.first)
      (data.extract 0 s.stop) := by
  rw [putStretch]
  split
  case isTrue expanded =>
    have fits : s.stop - s.first ≤ maxStored := by
      simp only [isExpanded, Bool.and_eq_true, decide_eq_true_eq] at expanded
      simp only [Matches.Stretch.stop]
      omega
    have joined : data.extract 0 s.stop = data.extract 0 s.first ++ data.extract s.first s.stop :=
      ByteArray.extract_eq_extract_append_extract s.first (Nat.zero_le _) (Nat.le_add_right _ _)
    rw [joined]
    exact putsBlock_stored hw last h.inside fits _
  case isFalse =>
    obtain ⟨written, settled⟩ := BitWriter.putAll_spec (hw.put (lastField last)) (codedFields s)
    refine ⟨settled, (lastField last).bits ++ bitsOfFields (codedFields s), ?_, ?_, ?_⟩
    · rw [written, BitWriter.written_put hw, List.append_assoc]
      rfl
    · rw [List.length_append, BitField.length_bits]
      exact Nat.lt_of_lt_of_le Nat.one_pos (Nat.le_add_right 1 _)
    · intro rest total _ room
      rw [List.length_append] at room
      rw [List.append_assoc]
      exact readBlock?_coded h last rest (Nat.le_trans (Nat.le_add_left _ _) room)

end ArtifactCourier.Deflate
