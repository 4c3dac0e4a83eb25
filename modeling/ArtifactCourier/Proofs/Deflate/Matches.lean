/-
  ArtifactCourier.Proofs.Deflate.Matches
  ──────────────────────────────────────
  **The tokens of a search expand to the text.**

  A repetition is only found where the bytes are those of its model (`Match.Repeats`): every
  length that the search proposes was counted byte by byte (`commonLength_spec`), whatever the
  chains say.  A reference to the model then puts the same bytes behind the text
  (`Match.Repeats.append?`).

  A decision about a place makes tokens for the text up to the next place, or up to the one
  before if a repetition is held there.  `Decision.Sound` says so, and `sound_decide` that every
  decision is of that kind.
-/
import ArtifactCourier.Deflate.Matches
import ArtifactCourier.Proofs.Bytes
import ArtifactCourier.Proofs.Deflate.Tokens

namespace ArtifactCourier.Deflate

/-! ## §1. Tokens extend the text. -/

/-- The text up to a place, and one byte more. -/
theorem extract_push {data : ByteArray} {i : Nat} (hi : i < data.size) :
    (data.extract 0 i).push (byteAt data i) = data.extract 0 (i + 1) := by
  apply ByteArray.ext
  have byte : byteAt data i = data.data[i] := by
    rw [byteAt, dif_pos hi]
    rfl
  simp only [ByteArray.data_push, ByteArray.data_extract, byte]
  exact Array.push_extract_getElem hi

/-- A byte of the text up to a place. -/
theorem byteAt_extract {data : ByteArray} {i j : Nat} (hj : j < i) (hi : i ≤ data.size) :
    byteAt (data.extract 0 i) j = byteAt data j := by
  have inside : j < data.size := Nat.lt_of_lt_of_le hj hi
  have there : j < (data.extract 0 i).size := by simpa using ⟨hj, inside⟩
  rw [byteAt, byteAt, dif_pos there, dif_pos inside, ByteArray.getElem_extract]
  simp

theorem size_extract_zero {data : ByteArray} {i : Nat} (hi : i ≤ data.size) :
    (data.extract 0 i).size = i := by
  rw [ByteArray.size_extract, Nat.min_eq_left hi, Nat.sub_zero]

namespace Token

/-- A byte that is written by itself. -/
theorem append?_byte {data : ByteArray} {i : Nat} (hi : i < data.size) :
    (byte (byteAt data i)).append? (data.extract 0 i) = some (data.extract 0 (i + 1)) :=
  congrArg some (extract_push hi)

/-- Bytes that are those of a model are copied from it. -/
theorem copyFrom_extract {data : ByteArray} {distance n i : Nat} (near : 1 ≤ distance)
    (behind : distance ≤ i) (inside : i + n ≤ data.size)
    (same : ∀ k < n, byteAt data (i + k) = byteAt data (i - distance + k)) :
    copyFrom distance n (data.extract 0 i) = data.extract 0 (i + n) := by
  induction n generalizing i with
  | zero => rfl
  | succ n ih =>
    have model : byteAt (data.extract 0 i) ((data.extract 0 i).size - distance)
        = byteAt data i := by
      rw [size_extract_zero (by omega), byteAt_extract (by omega) (by omega)]
      exact (same 0 (Nat.succ_pos n)).symm
    rw [copyFrom, model, extract_push (by omega), ih (by omega) (by omega) fun k hk => ?_]
    · congr 1
      omega
    · have next := same (k + 1) (Nat.succ_lt_succ hk)
      have here : i + 1 + k = i + (k + 1) := by omega
      have there : i + 1 - distance + k = i - distance + (k + 1) := by omega
      rw [here, there, next]

end Token

namespace Matches

/-! ## §2. Repetitions. -/

/-- The bytes at a place are those of the model, and a reference to it can be written. -/
structure Match.Repeats (m : Match) (data : ByteArray) (i : Nat) : Prop where
  long : minLength ≤ m.length
  short : m.length ≤ maxLength
  inside : i + m.length ≤ data.size
  near : 1 ≤ m.distance
  far : m.distance ≤ maxDistance
  behind : m.distance ≤ i
  same : ∀ k < m.length, byteAt data (i + k) = byteAt data (i - m.distance + k)

theorem Match.Repeats.fits {m : Match} {data : ByteArray} {i : Nat} (h : m.Repeats data i) :
    (Token.copy m.length m.distance).Fits := ⟨h.long, h.short, h.near, h.far⟩

/-- **A reference to the model puts the bytes of the repetition behind the text.** -/
theorem Match.Repeats.append? {m : Match} {data : ByteArray} {i : Nat} (h : m.Repeats data i) :
    (Token.copy m.length m.distance).append? (data.extract 0 i)
      = some (data.extract 0 (i + m.length)) := by
  have start : (data.extract 0 i).size = i :=
    size_extract_zero (Nat.le_trans (Nat.le_add_right _ _) h.inside)
  rw [Token.append?, start, if_pos ⟨h.near, h.behind⟩,
    Token.copyFrom_extract h.near h.behind h.inside h.same]

theorem commonLength_le (data : ByteArray) (i j limit : Nat) :
    commonLength data i j limit ≤ limit := by
  fun_induction commonLength data i j limit <;> omega

/-- **The length that is counted is that of equal bytes.** -/
theorem commonLength_spec (data : ByteArray) (i j limit : Nat) :
    ∀ k < commonLength data i j limit, byteAt data (i + k) = byteAt data (j + k) := by
  fun_induction commonLength data i j limit with
  | case1 => exact fun k hk => absurd hk (Nat.not_lt_zero k)
  | case2 i j limit equal ih =>
    intro k hk
    cases k with
    | zero => exact equal
    | succ k =>
      have next := ih k (Nat.lt_of_succ_lt_succ hk)
      rwa [Nat.add_right_comm i, Nat.add_right_comm j] at next
  | case3 => exact fun k hk => absurd hk (Nat.not_lt_zero k)

/-- What a search may answer: nothing, or a repetition that is longer than the known one. -/
def Answers (data : ByteArray) (i limit known : Nat) (m : Match) : Prop :=
  m.distance ≠ 0 →
    known < m.length ∧ m.length ≤ limit ∧ m.distance ≤ reach ∧ m.distance ≤ i
      ∧ ∀ k < m.length, byteAt data (i + k) = byteAt data (i - m.distance + k)

/-- One more place of a chain. -/
theorem Answers.orLonger {data : ByteArray} {i j limit known : Nat} {best : Match}
    (least : known ≤ best.length) (h : Answers data i limit known best) (near : i - j ≤ reach)
    (before : i - j ≠ 0) :
    known ≤ (best.orLonger (commonLength data i j limit) (i - j)).length
      ∧ Answers data i limit known (best.orLonger (commonLength data i j limit) (i - j)) := by
  rw [Match.orLonger]
  split
  case isTrue more =>
    refine ⟨Nat.le_of_lt (Nat.lt_of_le_of_lt least more), fun _ => ?_⟩
    have model : i - (i - j) = j := by omega
    refine ⟨Nat.lt_of_le_of_lt least more, commonLength_le .., near, Nat.sub_le _ _, ?_⟩
    rw [model]
    exact commonLength_spec data i j limit
  case isFalse => exact ⟨least, h⟩

/-- **A search answers with repetitions alone**, whatever the chains are. -/
theorem answers_search {c : Chains} {data : ByteArray} {i limit known probes place : Nat}
    {best : Match} (least : known ≤ best.length) (h : Answers data i limit known best) :
    Answers data i limit known (search c data i limit probes place best) := by
  induction probes generalizing place best with
  | zero => exact h
  | succ probes ih =>
    rw [search]
    split
    · exact h
    · dsimp only
      split
      · exact h
      case isFalse near =>
        obtain ⟨least, h⟩ := h.orLonger least (Nat.le_of_not_lt fun far => near (.inr far))
          fun here => near (.inl here)
        split
        · exact h
        · exact ih least h

/-- **What is found is a repetition**, longer than the known one. -/
theorem repeats_of_find? {c : Chains} {data : ByteArray} {i known : Nat} {m : Match}
    (known_long : minLength - 1 ≤ known) (h : find? c data i known = some m) :
    m.Repeats data i := by
  rw [find?] at h
  split at h
  case isTrue => cases h
  case isFalse some_room =>
    dsimp only at h
    split at h
    case isTrue => cases h
    case isFalse found =>
      rw [not_or] at found
      have nothing : Answers data i (min maxLength (data.size - i)) known ⟨known, 0⟩ :=
        fun none => absurd rfl none
      obtain ⟨longer, within, near, behind, same⟩ :=
        answers_search (Nat.le_refl known) nothing found.1
      cases h
      simp only [minLength] at known_long
      refine ⟨?_, Nat.le_trans within (Nat.min_le_left _ _), ?_, Nat.pos_of_ne_zero found.1, ?_,
        behind, same⟩
      · simp only [minLength]
        omega
      · omega
      · refine Nat.le_trans near ?_
        decide

/-! ## §3. Decisions. -/

/-- The place that the tokens reach, if a repetition may be held from the place before. -/
def reached (i : Nat) : (held : Option Match) → Nat
  | none => i
  | some _ => i - 1

/-- What is held at a place is a repetition at the place before. -/
def Holds (data : ByteArray) (i : Nat) (held : Option Match) : Prop :=
  ∀ m, held = some m → 1 ≤ i ∧ m.Repeats data (i - 1)

/-- **Tokens for the text from one place to another**, and a place that is still to be looked at. -/
structure Decision.Sound (data : ByteArray) (start : Nat) (d : Decision) : Prop where
  fits : ∀ t ∈ d.tokens, t.Fits
  expands : d.tokens.foldlM Token.append? (data.extract 0 start)
    = some (data.extract 0 (reached d.next d.held))
  inside : d.next ≤ data.size
  holds : Holds data d.next d.held

theorem holds_none (data : ByteArray) (i : Nat) : Holds data i none := fun _ h => by cases h

/-- A repetition is taken or held, behind tokens up to it. -/
theorem Match.Repeats.sound_choose {m : Match} {data : ByteArray} {i start : Nat}
    (h : m.Repeats data i) {before : List Token} (fits : ∀ t ∈ before, t.Fits)
    (expands : before.foldlM Token.append? (data.extract 0 start) = some (data.extract 0 i)) :
    (m.choose before i).Sound data start := by
  have long : 3 ≤ m.length := h.long
  have inside := h.inside
  rw [Match.choose]
  split
  case isTrue =>
    have next : i + max m.length 1 = i + m.length := by omega
    refine ⟨List.forall_mem_append.2 ⟨fits, by simpa using h.fits⟩, ?_, ?_, holds_none _ _⟩
    · simp [reached, List.foldlM_append, expands, h.append?, next]
    · exact next ▸ inside
  case isFalse =>
    refine ⟨fits, by simpa [reached] using expands, by simp only; omega, ?_⟩
    rintro _ ⟨⟩
    exact ⟨Nat.succ_pos i, h⟩

/-- A byte written by itself. -/
theorem fits_byte (b : UInt8) : ∀ t ∈ [Token.byte b], t.Fits := by
  intro t ht
  rw [List.mem_singleton.1 ht]
  trivial

theorem expands_byte {data : ByteArray} {i : Nat} (hi : i < data.size) :
    [Token.byte (byteAt data i)].foldlM Token.append? (data.extract 0 i)
      = some (data.extract 0 (i + 1)) := by
  rw [List.foldlM_cons, Token.append?_byte hi]
  rfl

/-- **Every decision makes tokens for the text** up to the place it goes on with. -/
theorem sound_decide (c : Chains) {data : ByteArray} {i : Nat} {held : Option Match}
    (hi : i < data.size) (holds : Holds data i held) :
    (decide c data i held).Sound data (reached i held) := by
  cases held with
  | none =>
    rw [decide]
    split
    case h_1 => exact ⟨fits_byte _, expands_byte hi, hi, holds_none _ _⟩
    case h_2 m found =>
      exact (repeats_of_find? (Nat.le_refl _) found).sound_choose (by simp) rfl
  | some held =>
    obtain ⟨later, repeats⟩ := holds held rfl
    have long : 3 ≤ held.length := repeats.long
    have inside := repeats.inside
    rw [decide]
    split
    case h_1 =>
      -- there is no longer one here
      have next : i + max (held.length - 1) 1 = i - 1 + held.length := by omega
      refine ⟨by simpa using repeats.fits, ?_, next ▸ inside, holds_none _ _⟩
      simp [reached, repeats.append?, next]
    case h_2 m found =>
      have known : minLength - 1 ≤ held.length := Nat.le_trans (Nat.sub_le _ _) repeats.long
      have byte : [Token.byte (byteAt data (i - 1))].foldlM Token.append? (data.extract 0 (i - 1))
          = some (data.extract 0 i) := by
        have here : i - 1 + 1 = i := by omega
        have expanded := @expands_byte data (i - 1) (by omega)
        rwa [here] at expanded
      exact (repeats_of_find? known found).sound_choose (fits_byte _) byte

end Matches
end ArtifactCourier.Deflate
