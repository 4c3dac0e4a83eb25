/-
  ArtifactCourier.Proofs.Tar.Records
  ──────────────────────────────────────
  **The records of an archive are its members.**

  A header is one block (`Header.length_bytes`), and each of its fields is found at its place
  (`Header.slice_size` and its like).  So a member gives back, wherever it stands, all that it
  says (`readRecord_eq`), and the records of an archive are those of its members, one by one
  (`records?_archive`).
-/
import ArtifactCourier.Proofs.Tar.Extents

namespace ArtifactCourier.Tar

/-! ## §1. The layout of a header. -/

namespace Header

variable (h : Header)

@[simp] theorem length_front : h.front.length = 148 := by simp [front]

theorem length_sparseFields (s : Option SparseMap) : (sparseFields s).length = 109 := by
  cases s <;> simp [sparseFields, maxExtents]

/-- Behind the flag there are 100 bytes of no importance and the mark of the format, then 121 bytes
that say nothing about the contents, and then the fields of the stored stretches. -/
theorem back_split : ∃ between, between.length = 121 ∧
    h.back = [h.kind.flag] ++ List.replicate 100 0 ++ magic ++ between
      ++ (sparseFields h.kind.map? ++ List.replicate 17 0) := by
  have numbers : ∃ device : List UInt8, device.length = 16 ∧
      h.back = h.kind.flag :: List.replicate 100 0 ++ magic ++ List.replicate 64 0 ++ device
        ++ List.replicate (12 + 12 + 12 + 4 + 1) 0 ++ sparseFields h.kind.map?
        ++ List.replicate 17 0 := by
    rcases device : h.device with _ | ⟨major, minor⟩
    · exact ⟨List.replicate 16 0, List.length_replicate, by rw [back, device]⟩
    · exact ⟨octalField 8 major ++ octalField 8 minor, by simp, by rw [back, device]⟩
  obtain ⟨device, length, split⟩ := numbers
  refine ⟨List.replicate 64 0 ++ device ++ List.replicate (12 + 12 + 12 + 4 + 1) 0, ?_, ?_⟩
  · simp only [List.length_append, List.length_replicate, length]
  · rw [split]
    simp only [List.append_assoc, List.cons_append, List.nil_append]

@[simp] theorem length_back : h.back.length = 356 := by
  obtain ⟨between, length, split⟩ := h.back_split
  simp [split, length, length_sparseFields, magic]

/-- **A header is one block.** -/
theorem length_bytes : h.bytes.length = blockSize := by simp [bytes, blockSize]

theorem slice_name : slice h.bytes 0 100 = textField 100 h.name := by
  have split : h.bytes = [] ++ textField 100 h.name ++ (octalField 8 h.mode
      ++ numberField 8 h.user ++ numberField 8 h.group ++ numberField 12 h.size
      ++ numberField 12 h.mtime ++ octalField 8 h.checksum ++ h.back) := by
    simp only [bytes, front, List.append_assoc, List.nil_append]
  rw [split]
  exact slice_between rfl (by simp)

theorem slice_mode : slice h.bytes 100 8 = octalField 8 h.mode := by
  have split : h.bytes = textField 100 h.name ++ octalField 8 h.mode ++ (numberField 8 h.user
      ++ numberField 8 h.group ++ numberField 12 h.size ++ numberField 12 h.mtime
      ++ octalField 8 h.checksum ++ h.back) := by
    simp only [bytes, front, List.append_assoc]
  rw [split]
  exact slice_between (by simp) (by simp)

theorem slice_user : slice h.bytes 108 8 = numberField 8 h.user := by
  have split : h.bytes = (textField 100 h.name ++ octalField 8 h.mode) ++ numberField 8 h.user
      ++ (numberField 8 h.group ++ numberField 12 h.size ++ numberField 12 h.mtime
      ++ octalField 8 h.checksum ++ h.back) := by
    simp only [bytes, front, List.append_assoc]
  rw [split]
  exact slice_between (by simp) (by simp)

theorem slice_group : slice h.bytes 116 8 = numberField 8 h.group := by
  have split : h.bytes = (textField 100 h.name ++ octalField 8 h.mode ++ numberField 8 h.user)
      ++ numberField 8 h.group ++ (numberField 12 h.size ++ numberField 12 h.mtime
      ++ octalField 8 h.checksum ++ h.back) := by
    simp only [bytes, front, List.append_assoc]
  rw [split]
  exact slice_between (by simp) (by simp)

theorem slice_size : slice h.bytes 124 12 = numberField 12 h.size := by
  have split : h.bytes = (textField 100 h.name ++ octalField 8 h.mode ++ numberField 8 h.user
      ++ numberField 8 h.group) ++ numberField 12 h.size ++ (numberField 12 h.mtime
      ++ octalField 8 h.checksum ++ h.back) := by
    simp only [bytes, front, List.append_assoc]
  rw [split]
  exact slice_between (by simp) (by simp)

theorem slice_mtime : slice h.bytes 136 12 = numberField 12 h.mtime := by
  have split : h.bytes = (textField 100 h.name ++ octalField 8 h.mode ++ numberField 8 h.user
      ++ numberField 8 h.group ++ numberField 12 h.size) ++ numberField 12 h.mtime
      ++ (octalField 8 h.checksum ++ h.back) := by
    simp only [bytes, front, List.append_assoc]
  rw [split]
  exact slice_between (by simp) (by simp)

theorem slice_flag : slice h.bytes 156 1 = [h.kind.flag] := by
  obtain ⟨between, -, split⟩ := h.back_split
  have split : h.bytes = (h.front ++ octalField 8 h.checksum) ++ [h.kind.flag]
      ++ (List.replicate 100 0 ++ magic ++ between
        ++ (sparseFields h.kind.map? ++ List.replicate 17 0)) := by
    simp only [bytes, split, List.append_assoc]
  rw [split]
  exact slice_between (by simp) rfl

theorem slice_magic : slice h.bytes 257 8 = magic := by
  obtain ⟨between, -, split⟩ := h.back_split
  have split : h.bytes = (h.front ++ octalField 8 h.checksum ++ [h.kind.flag]
      ++ List.replicate 100 0) ++ magic ++ (between
        ++ (sparseFields h.kind.map? ++ List.replicate 17 0)) := by
    simp only [bytes, split, List.append_assoc]
  rw [split]
  exact slice_between (by simp) rfl

/-- What stands in front of the fields of the stored stretches. -/
theorem sparse_split : ∃ before, before.length = 386 ∧
    h.bytes = before ++ (sparseFields h.kind.map? ++ List.replicate 17 0) := by
  obtain ⟨between, length, split⟩ := h.back_split
  refine ⟨h.front ++ octalField 8 h.checksum ++ [h.kind.flag] ++ List.replicate 100 0 ++ magic
    ++ between, ?_, ?_⟩
  · simp [length, magic]
  · simp only [bytes, split, List.append_assoc]

end Header

/-! ## §2. The record of a member. -/

namespace Member

/-- The header says how much data there is and where it belongs, in numbers that its fields can
hold. -/
structure Stated (m : Member) : Prop where
  size : m.header.size = m.data.size
  fits : m.data.size < maxNumber
  extents : ∀ e ∈ m.header.kind.extents, e.Fits

/-- How many blocks continue the header of a member. -/
def continued (m : Member) : Nat := blocksFor (m.header.kind.extents.drop maxExtents)

/-- **What is read of a member.** -/
def record (m : Member) : Record where
  name := (textField 100 m.header.name).takeWhile (· != 0)
  mode := readNumber (octalField 8 m.header.mode)
  user := readNumber (numberField 8 m.header.user)
  group := readNumber (numberField 8 m.header.group)
  size := m.data.size
  mtime := readNumber (numberField 12 m.header.mtime)
  flag := m.header.kind.flag
  magic := Header.magic
  extents := m.header.kind.extents
  realSize := m.header.kind.map?.elim 0 fun map => readNumber (numberField 12 map.realSize)
  continued := m.continued
  data := m.data

variable {m : Member}

theorem toList_bytes (m : Member) :
    m.bytes.toList = m.header.bytes ++ m.extension
      ++ (m.data.toList ++ List.replicate (fill m.data.size) 0) := by
  simp [Member.bytes]

theorem length_extension (m : Member) : m.extension.length = blockSize * m.continued :=
  Tar.length_extension _

theorem size_bytes (m : Member) :
    m.bytes.size = blockSize * (1 + m.continued) + m.data.size + fill m.data.size := by
  rw [← length_toList, toList_bytes]
  simp only [List.length_append, Header.length_bytes, length_extension, length_toList,
    List.length_replicate, Nat.mul_add, Nat.mul_one]
  omega

theorem record_name (short : m.header.name.length ≤ 100) (plain : 0 ∉ m.header.name) :
    m.record.name = m.header.name :=
  takeWhile_textField short plain

theorem record_mode (fits : m.header.mode < 8 ^ 7) : m.record.mode = m.header.mode :=
  readNumber_octalField fits

theorem record_user (fits : m.header.user < 2 ^ 32) : m.record.user = m.header.user :=
  readNumber_numberField (Nat.lt_trans fits (by decide))

theorem record_group (fits : m.header.group < 2 ^ 32) : m.record.group = m.header.group :=
  readNumber_numberField (Nat.lt_trans fits (by decide))

theorem record_mtime (fits : m.header.mtime < maxNumber) : m.record.mtime = m.header.mtime :=
  readNumber_numberField fits

theorem record_realSize {map : SparseMap} (hs : m.header.kind = .sparseFile map)
    (fits : map.realSize < maxNumber) : m.record.realSize = map.realSize := by
  rw [record, hs]
  exact readNumber_numberField fits

end Member

/-! ## §3. Reading. -/

section stands

variable {m : Member} {data : ByteArray} {first : Nat} (h : Stands data first m.bytes.toList)

include h

theorem stands_header : Stands data first m.header.bytes := by
  rw [m.toList_bytes] at h
  exact h.left.left

theorem stands_extension : Stands data (first + blockSize) m.extension := by
  rw [m.toList_bytes] at h
  have behind := h.left.right
  rwa [m.header.length_bytes] at behind

theorem stands_data : Stands data (first + blockSize * (1 + m.continued)) m.data.toList := by
  rw [m.toList_bytes] at h
  have behind := h.right.left
  rw [List.length_append, m.header.length_bytes, m.length_extension] at behind
  rwa [Nat.mul_add, Nat.mul_one]

/-- The fields of the stored stretches have a place of their own. -/
theorem stands_sparseFields :
    Stands data (first + 386) (sparseFields m.header.kind.map? ++ List.replicate 17 0) := by
  obtain ⟨before, length, split⟩ := m.header.sparse_split
  have header := stands_header h
  rw [split] at header
  have behind := header.right
  rwa [length] at behind

theorem extract_data {start : Nat} (there : start = first + blockSize * (1 + m.continued)) :
    data.extract start (start + m.data.size) = m.data := by
  have all := (stands_data h).field_eq (Nat.le_of_eq (Nat.zero_add m.data.toList.length))
  rw [Nat.add_zero, ← there, length_toList] at all
  exact toList_inj.1 (all.trans (List.take_of_length_le (Nat.le_of_eq (length_toList m.data))))

theorem inside : first + blockSize * (1 + m.continued) ≤ data.size := by
  have size := m.size_bytes
  have room := Stands.inside h (List.ne_nil_of_length_pos (by
    rw [length_toList, size, Nat.mul_add]
    simp only [blockSize]
    omega))
  rw [length_toList, size] at room
  omega

/-- A header without stretches has zeros in place of their fields. -/
theorem stands_zeros (plain : m.header.kind.map? = none) :
    Stands data (first + 386) (List.replicate (24 * maxExtents) 0) ∧
      Stands data (first + 483) (List.replicate 12 0) := by
  have fields := (stands_sparseFields h).left
  have split : sparseFields none = List.replicate (24 * maxExtents) 0
      ++ (List.replicate 1 0 ++ List.replicate 12 0) := by
    rw [← List.replicate_add, ← List.replicate_add]
    rfl
  rw [plain, split] at fields
  exact ⟨fields.left, fields.right.right⟩

/-- **All stretches of a member are read**, and how many blocks they took. -/
theorem readStretches_eq (stated : m.Stated) :
    readStretches data first m.header.kind.flag = (m.header.kind.extents, m.continued) := by
  cases kind : m.header.kind with
  | sparseFile map =>
    have fields := stands_sparseFields h
    have behind := stands_extension h
    have fit := stated.extents
    rw [kind] at fields fit
    rw [Member.extension, kind] at behind
    have own := fields.left.left
    rw [readStretches, readExtents_eq own fit, areContinued_eq own, Member.continued, kind]
    by_cases more : map.extents.length > maxExtents
    · have left : map.extents.drop maxExtents ≠ [] := by
        rw [Ne, List.drop_eq_nil_iff]
        exact Nat.not_le_of_gt more
      have enough : m.continued ≤ data.size / blockSize := by
        rw [Nat.le_div_iff_mul_le (by decide), Nat.mul_comm]
        have room := inside h
        rw [Nat.mul_add] at room
        omega
      rw [Member.continued, kind] at enough
      have further := readExtension_eq left (fun e he => fit e (List.mem_of_mem_drop he)) behind
        enough
      simp only [MemberKind.flag, more, decide_true, and_self, if_true, further]
      exact congrArg (·, blocksFor (map.extents.drop maxExtents))
        (List.take_append_drop maxExtents map.extents)
    · have none : map.extents.drop maxExtents = [] :=
        List.drop_eq_nil_iff.2 (Nat.le_of_not_lt more)
      have whole : map.extents.take maxExtents = map.extents :=
        List.take_of_length_le (Nat.le_of_not_lt more)
      simp only [more, decide_false, Bool.false_eq_true, and_false, if_false]
      exact congr (congrArg Prod.mk whole) (congrArg blocksFor none).symm
  | _ =>
    obtain ⟨empty, -⟩ := stands_zeros h (by rw [kind]; rfl)
    rw [readStretches, readExtents_of_stands empty (by rw [List.length_replicate]),
      extentsIn_zeros, Member.continued, kind]
    rfl

theorem readNumber_realSize : readNumber (field data (first + 483) 12) = m.record.realSize := by
  rw [Member.record]
  cases kind : m.header.kind with
  | sparseFile map =>
    have fields := stands_sparseFields h
    rw [kind] at fields
    have place : first + 386 + (extentFields maxExtents map.extents).length = first + 483 := by
      rw [length_extentFields]
      rfl
    have real := fields.left.right.field_eq
      (show 0 + 12 ≤ (numberField 12 map.realSize).length by simp)
    rw [place, Nat.add_zero, slice, List.drop_zero, List.take_of_length_le (by simp)] at real
    rw [real]
    rfl
  | _ =>
    obtain ⟨-, empty⟩ := stands_zeros h (by rw [kind]; rfl)
    have zeros := empty.field_eq (show 0 + 12 ≤ _ by simp)
    rw [Nat.add_zero] at zeros
    rw [zeros]
    rfl

/-- **A member is read as it was written**, wherever it stands. -/
theorem readRecord_eq (stated : m.Stated) : readRecord data first = m.record := by
  have header := stands_header h
  have room := m.header.length_bytes
  have flag := header.byteAt_eq (show 156 + 1 ≤ m.header.bytes.length by rw [room]; decide)
  rw [m.header.slice_flag, List.headD_cons] at flag
  have read {place width : Nat} (hw : place + width ≤ blockSize) :
      field data (first + place) width = slice m.header.bytes place width :=
    header.field_eq (by rw [room]; exact hw)
  have name : field data first 100 = textField 100 m.header.name := by
    rw [← m.header.slice_name]
    exact @read 0 100 (by decide)
  have size : readNumber (field data (first + 124) 12) = m.data.size := by
    rw [read (by decide), m.header.slice_size, stated.size]
    exact readNumber_numberField stated.fits
  have real_size := readNumber_realSize h
  have mode := @read 100 8 (by decide)
  have user := @read 108 8 (by decide)
  have group := @read 116 8 (by decide)
  have mtime := @read 136 12 (by decide)
  have magic := @read 257 8 (by decide)
  rw [m.header.slice_mode] at mode
  rw [m.header.slice_user] at user
  rw [m.header.slice_group] at group
  rw [m.header.slice_mtime] at mtime
  rw [m.header.slice_magic] at magic
  simp only [readRecord, fieldText, flag, readStretches_eq h stated, name, size, real_size, mode,
    user, group, mtime, magic, extract_data h rfl]
  rfl

/-- **A member begins with a block that is not zero**, because of its flag. -/
theorem isZeroBlock_eq : isZeroBlock data first = false := by
  have header := stands_header h
  have block := header.field_eq (Nat.le_of_eq (Nat.zero_add m.header.bytes.length))
  have whole : slice m.header.bytes 0 m.header.bytes.length = m.header.bytes :=
    List.take_of_length_le (Nat.le_refl _)
  rw [Nat.add_zero, whole, m.header.length_bytes] at block
  have flag : m.header.kind.flag ∈ m.header.bytes := by
    have there : slice m.header.bytes 156 1 = [m.header.kind.flag] := m.header.slice_flag
    exact List.mem_of_mem_drop (List.mem_of_mem_take (there ▸ List.mem_singleton_self _))
  rw [isZeroBlock, block, Bool.eq_false_iff]
  intro zero
  have given := List.all_eq_true.1 zero _ flag
  cases kind : m.header.kind <;> rw [kind] at given <;> cases given

end stands

/-! ## §4. The records of an archive. -/

theorem membersBytes_cons (m : Member) (members : List Member) :
    membersBytes (m :: members) = m.bytes ++ membersBytes members := by
  have behind (out : ByteArray) (rest : List Member) :
      rest.foldl (fun out m => out ++ m.bytes) out = out ++ membersBytes rest := by
    induction rest generalizing out with
    | nil => exact ByteArray.append_empty.symm
    | cons m rest ih =>
      rw [membersBytes, List.foldl_cons, List.foldl_cons, ih, ih (ByteArray.empty ++ m.bytes),
        ByteArray.empty_append, ByteArray.append_assoc]
  rw [membersBytes, List.foldl_cons, behind, ByteArray.empty_append]

theorem isZeroBlock_of_stands {data : ByteArray} {first : Nat}
    (h : Stands data first (List.replicate blockSize 0)) : isZeroBlock data first = true := by
  have block := h.field_eq (show 0 + blockSize ≤ _ by simp)
  rw [Nat.add_zero] at block
  rw [isZeroBlock, block]
  simp [slice]

/-- Two blocks of zeros end the records. -/
theorem recordsFrom?_ending (before : ByteArray) (steps : Nat) :
    recordsFrom? (before ++ ending) (steps + 1) before.size = some [] := by
  have blocks : ending.toList = List.replicate blockSize 0 ++ List.replicate blockSize 0 := by
    rw [ending, toList_zeros, ← List.replicate_add]
    rfl
  have behind := stands_between before ending ByteArray.empty
  rw [ByteArray.append_empty, blocks] at behind
  have first := isZeroBlock_of_stands behind.left
  have second := behind.right
  rw [List.length_replicate] at second
  have second := isZeroBlock_of_stands second
  have size : (before ++ ending).size = before.size + 2 * blockSize := by
    rw [ByteArray.size_append, ending, size_zeros]
  have room : ¬ before.size + blockSize > (before ++ ending).size := by
    rw [size]
    omega
  rw [recordsFrom?, if_neg room, if_pos first, if_pos ⟨size, second⟩]

/-- The records behind some bytes, with a step for each. -/
theorem recordsFrom?_members {members : List Member} (hm : ∀ m ∈ members, m.Stated)
    (before : ByteArray) {steps : Nat} (enough : members.length < steps) :
    recordsFrom? (before ++ membersBytes members ++ ending) steps before.size
      = some (members.map Member.record) := by
  obtain ⟨steps, rfl⟩ : ∃ n, steps = n + 1 := ⟨steps - 1, by omega⟩
  -- What was read goes to what stands in front of the others.
  induction members generalizing before steps with
  | nil =>
    have nothing : before ++ membersBytes [] = before := ByteArray.append_empty
    rw [nothing]
    exact recordsFrom?_ending before steps
  | cons m members ih =>
    obtain ⟨first, later⟩ := List.forall_mem_cons.1 hm
    rw [List.length_cons] at enough
    obtain ⟨steps, rfl⟩ : ∃ n, steps = n + 1 := ⟨steps - 1, by omega⟩
    have split : before ++ membersBytes (m :: members) ++ ending
        = before ++ m.bytes ++ (membersBytes members ++ ending) := by
      simp only [membersBytes_cons, ByteArray.append_assoc]
    have there : Stands (before ++ membersBytes (m :: members) ++ ending) before.size
        m.bytes.toList := by
      rw [split]
      exact stands_between _ _ _
    have next : before.size + blockSize * (1 + m.continued) + m.data.size + fill m.data.size
        = (before ++ m.bytes).size := by
      rw [ByteArray.size_append, m.size_bytes]
      simp only [Nat.add_assoc]
    have room : ¬ before.size + blockSize > (before ++ membersBytes (m :: members) ++ ending).size := by
      have inside := inside there
      rw [Nat.mul_add] at inside
      omega
    have rest := ih later (before ++ m.bytes) steps (by omega)
    rw [ByteArray.append_assoc] at rest
    rw [recordsFrom?, if_neg room, isZeroBlock_eq there, readRecord_eq there first]
    simp only [Bool.false_eq_true, if_false, Member.record, next, split, rest, List.map_cons,
      Option.bind_eq_bind, Option.bind_some]

/-- Every member takes a block at least. -/
theorem length_le_size_membersBytes (members : List Member) :
    blockSize * members.length ≤ (membersBytes members).size := by
  induction members with
  | nil => exact Nat.zero_le _
  | cons m members ih =>
    have room := m.size_bytes
    rw [membersBytes_cons, ByteArray.size_append, List.length_cons, Nat.mul_succ]
    rw [Nat.mul_add] at room
    omega

/-- **The records of an archive are those of its members.** -/
theorem records?_archive {members : List Member} (hm : ∀ m ∈ members, m.Stated) :
    records? (archive members) = some (members.map Member.record) := by
  have room := length_le_size_membersBytes members
  have size : (archive members).size = (membersBytes members).size + 2 * blockSize := by
    rw [archive, ByteArray.size_append, ending, size_zeros]
  have enough : members.length < (archive members).size / blockSize + 1 := by
    rw [size, Nat.lt_succ_iff, Nat.le_div_iff_mul_le (by decide)]
    simp only [blockSize] at *
    omega
  have read := recordsFrom?_members hm ByteArray.empty enough
  rw [ByteArray.empty_append] at read
  exact read

end ArtifactCourier.Tar
