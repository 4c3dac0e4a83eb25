/-
  ArtifactCourier.Proofs.Tar.Members
  ──────────────────────────────────────
  **An archived file is extracted as it was.**

  The archive of a regular file has one member, under its base name, with its bytes.  There are
  two things to see through: a file with holes is stored without them, and a long name stands
  in a record of its own.

    • `fileMember_record` — the record of a file has its contents,
    • `MemberName.ofPath_step` — the name of a single step,
    • `members?_of_regular` — the file that an extractor makes.
-/
import ArtifactCourier.Proofs.FileSystem.Sound
import ArtifactCourier.Proofs.Path
import ArtifactCourier.Proofs.Tar.Holes
import ArtifactCourier.Proofs.Tar.Records

namespace ArtifactCourier.Tar

/-! ## §1. Regular files. -/

/-- A record that stands for a regular file with some contents. -/
structure Record.IsFile (r : Record) (contents : ByteArray) : Prop where
  plainFlag : r.plainFlag = MemberKind.file.flag
  notName : r.flag ≠ MemberKind.longName.flag
  contents : r.contents = contents

section file

variable (name : List UInt8) (n : Node) (owner : Owner) {c : Content} (fits : c.size < maxNumber)

include fits

/-- The member of a file says how long it is, and where its stretches belong. -/
theorem fileMember_stated : (fileMember name n owner c).Stated := by
  rw [fileMember]
  cases hmap : sparseMap? c with
  | none => exact ⟨c.size_bytes.symm, by rwa [c.size_bytes], by rintro e ⟨⟩⟩
  | some map =>
    obtain ⟨-, within, -⟩ := spread_sparseMap hmap
    refine ⟨rfl, Nat.lt_of_le_of_lt c.size_stored_le fits, fun e he => ?_⟩
    have inside := within e he
    exact ⟨by omega, by omega⟩

/-- **The record of a file has its contents**, with zeros for its holes. -/
theorem fileMember_record : (fileMember name n owner c).record.IsFile c.bytes := by
  cases hmap : sparseMap? c with
  | none =>
    have member : fileMember name n owner c
        = ⟨headerOf name n owner c.size .file none, c.bytes⟩ := by rw [fileMember, hmap]
    have other : MemberKind.file.flag ≠ MemberKind.longName.flag := by decide
    rw [member]
    exact ⟨rfl, other, rfl⟩
  | some map =>
    have member : fileMember name n owner c
        = ⟨headerOf name n owner c.stored.size (.sparseFile map) none, c.stored⟩ := by
      rw [fileMember, hmap]
    have other : MemberKind.sparseFlag ≠ MemberKind.longName.flag := by decide
    have kind : (fileMember name n owner c).header.kind = .sparseFile map := by
      rw [member]
      rfl
    have flag : (fileMember name n owner c).record.flag = MemberKind.sparseFlag := by
      rw [member]
      rfl
    obtain ⟨size, -, together⟩ := spread_sparseMap hmap
    have real := Member.record_realSize kind (size ▸ fits)
    refine ⟨by rw [Record.plainFlag, if_pos flag], by rw [flag]; exact other, ?_⟩
    rw [Record.contents, if_pos flag, real, size, member]
    exact together

end file

/-! ## §2. Names. -/

/-- A single step leads to an entry of that name. -/
theorem stepOf_of_isStep {name : RawText} (step : name.IsStep) :
    Path.stepOf name.bytes = some (.entry name) := by
  obtain ⟨entry, -⟩ := step
  simp only [FileSystem.isEntryName, Bool.and_eq_true, decide_eq_true_eq] at entry
  obtain ⟨⟨nonempty, not_dot⟩, not_dots⟩ := entry
  rw [Path.stepOf, if_neg (not_or.2 ⟨nonempty, not_dot⟩), if_neg not_dots]

/-- A single step is stored as it is, if it fits into the field. -/
theorem store_step {name : RawText} (step : name.IsStep) :
    store false ⟨name⟩ = if name.bytes.length ≤ maxName then .ok name.bytes
      else .error ⟨.tooLong, []⟩ := by
  have steps := Path.components_of_step (stepOf_of_isStep step) step.2
  have nonempty : name.bytes ≠ [] := by
    intro given
    have none := stepOf_of_isStep step
    rw [given] at none
    cases none
  have no_slash : (Path.mk name).endsWithSlash = false :=
    beq_eq_false_iff_ne.2 fun last => step.2 (List.mem_of_getLast? last)
  rw [store, steps]
  by_cases short : name.bytes.length ≤ maxName
  · simp [storeSteps, extend, short, nonempty, no_slash, bind, Except.bind]
  · simp [storeSteps, extend, short, bind, Except.bind]

/-- **The name of a single step**: it stands in the field, or it is too long for that and stands
in full in front of the member. -/
theorem MemberName.ofPath_step {name : RawText} (step : name.IsStep) {stored : MemberName}
    (h : MemberName.ofPath ⟨name⟩ = .ok stored) :
    (stored = ⟨name.bytes, none⟩ ∧ name.bytes.length ≤ maxName)
      ∨ stored.full = some name.bytes := by
  rw [MemberName.ofPath, store_step step] at h
  by_cases short : name.bytes.length ≤ maxName
  · rw [if_pos short] at h
    cases h
    exact .inl ⟨rfl, short⟩
  · rw [if_neg short] at h
    have long : ¬ (Path.mk name).bytes.length < maxName := fun given =>
      short (Nat.le_of_lt given)
    dsimp only at h
    rw [if_neg long] at h
    split at h
    · cases h
      exact .inr rfl
    · cases h

/-! ## §3. The archive of a file. -/

/-- A record of a long name. -/
theorem longNameRecord_stated {name : List UInt8} (fits : name.length + 1 < maxNumber) :
    (longNameRecord name).Stated := by
  have size : (name ++ [0]).toByteArray.size = name.length + 1 := by
    rw [List.size_toByteArray, List.length_append, List.length_singleton]
  exact ⟨size.symm, by rw [longNameRecord, size]; exact fits, by rintro e ⟨⟩⟩

/-- A record of a long name is read as the name. -/
theorem longName_record {name : List UInt8} (plain : 0 ∉ name) :
    (longNameRecord name).record.flag = MemberKind.longName.flag
      ∧ (longNameRecord name).record.data.toList.takeWhile (· != 0) = name := by
  have nonzero : ∀ b ∈ name, (b != 0) = true := by
    intro b hb
    rw [bne_iff_ne]
    rintro rfl
    exact plain hb
  refine ⟨rfl, ?_⟩
  have data : (longNameRecord name).record.data.toList = name ++ [0] := toList_toByteArray _
  rw [data, List.takeWhile_append_of_pos nonzero]
  simp

/-- **A member is extracted under the name that it was stored under**: the field holds the whole
name, or the record in front of the member does. -/
theorem extractFrom_spelled {text : List UInt8} {stored : MemberName} {m : Member}
    (hstored : (stored = ⟨text, none⟩ ∧ text.length ≤ maxName) ∨ stored.full = some text)
    (plain : 0 ∉ text) (hname : m.header.name = stored.field) (notName : m.record.flag ≠ MemberKind.longName.flag) :
    extractFrom none ((named stored m).map Member.record)
      = [⟨text, m.record.plainFlag, m.record.mode, m.record.mtime, m.record.contents⟩] := by
  rcases hstored with ⟨rfl, short⟩ | long
  · -- the field holds the whole name
    have header : m.header.name = text := hname
    have own : m.record.name = text := by
      rw [← header] at short plain ⊢
      exact Member.record_name short plain
    simp only [named, List.map_cons, List.map_nil, extractFrom, if_neg notName,
      Option.getD_none, own]
  · -- the record in front names the member
    obtain ⟨flag, text⟩ := longName_record plain
    simp only [named, long, List.map_cons, List.map_nil, extractFrom, flag, if_true, text,
      if_neg notName, Option.getD_some]

/-- The name and the data of what an extractor makes of a file. -/
theorem extractFrom_named {name : RawText} {stored : MemberName} {m : Member} {contents : ByteArray}
    (hstored : (stored = ⟨name.bytes, none⟩ ∧ name.bytes.length ≤ maxName)
      ∨ stored.full = some name.bytes)
    (plain : 0 ∉ name.bytes) (hname : m.header.name = stored.field) (file : m.record.IsFile contents) :
    extractFrom none ((named stored m).map Member.record)
      = [⟨name.bytes, MemberKind.file.flag, m.record.mode, m.record.mtime, contents⟩] := by
  rw [extractFrom_spelled hstored plain hname file.notName, file.plainFlag, file.contents]

section regular

variable {path : Path} {name : RawText} {n : Node} {owner : Owner} {c : Content}
  (regular : n.kind = .file c) {members : List Member}

include regular

/-- A regular file is archived under its name, as one member. -/
theorem membersOf_regular (h : membersOf path name n owner = .ok members) :
    ∃ stored, MemberName.ofPath ⟨name⟩ = .ok stored ∧
      members = named stored (fileMember stored.field n owner c) := by
  rw [membersOf, regular] at h
  dsimp only at h
  rw [underName] at h
  split at h
  case h_2 => cases h
  case h_1 stored hstored =>
    cases h
    exact ⟨stored, hstored, rfl⟩

variable (step : name.IsStep) (named_shortly : name.bytes.length + 1 < maxNumber)
  (fits : c.size < maxNumber) (h : membersOf path name n owner = .ok members)

include step named_shortly fits h

/-- **Its records are read**: the last is that of the file. -/
theorem records?_of_regular : ∃ stored,
    ((stored = ⟨name.bytes, none⟩ ∧ name.bytes.length ≤ maxName)
      ∨ stored.full = some name.bytes) ∧
    records? (archive members)
      = some ((named stored (fileMember stored.field n owner c)).map Member.record) := by
  obtain ⟨stored, hstored, rfl⟩ := membersOf_regular regular h
  have spelled := MemberName.ofPath_step step hstored
  have stated := fileMember_stated stored.field n owner fits
  have all : ∀ m ∈ named stored (fileMember stored.field n owner c), m.Stated := by
    rcases spelled with ⟨rfl, -⟩ | long
    · simpa [named] using stated
    · simpa [named, long] using ⟨longNameRecord_stated named_shortly, stated⟩
  exact ⟨stored, spelled, records?_archive all⟩

/-- **The archive of a regular file is extracted as one file**: under the name of the step, with
the bytes of the file, and with what its header says of mode and time. -/
theorem members?_of_regular (plain : 0 ∉ name.bytes) :
    ∃ field, members? (archive members) = some [⟨name.bytes, MemberKind.file.flag,
      (fileMember field n owner c).record.mode, (fileMember field n owner c).record.mtime,
      c.bytes⟩] := by
  obtain ⟨stored, spelled, records⟩ := records?_of_regular regular step named_shortly fits h
  have header : (fileMember stored.field n owner c).header.name = stored.field := by
    rw [fileMember]
    split <;> rfl
  refine ⟨stored.field, ?_⟩
  rw [members?, records, Option.map_some,
    extractFrom_named spelled plain header (fileMember_record _ n owner fits)]

/-- The archive of a regular file gives the file back, whatever its mode and its time are. -/
theorem members?_of_file (plain : 0 ∉ name.bytes) :
    ∃ mode mtime, members? (archive members)
      = some [⟨name.bytes, MemberKind.file.flag, mode, mtime, c.bytes⟩] := by
  obtain ⟨field, extracted⟩ := members?_of_regular regular step named_shortly fits h plain
  exact ⟨_, _, extracted⟩

/-- **It says whom the file belongs to.** -/
theorem exists_owner : ∃ records r, records? (archive members) = some records ∧
    records.getLast? = some r ∧ r.user = owner.user.toNat ∧ r.group = owner.group.toNat := by
  obtain ⟨stored, spelled, records⟩ := records?_of_regular regular step named_shortly fits h
  obtain ⟨front, split⟩ : ∃ front, named stored (fileMember stored.field n owner c)
      = front ++ [fileMember stored.field n owner c] := by
    rw [named]
    split
    · exact ⟨[_], rfl⟩
    · exact ⟨[], rfl⟩
  have user : (fileMember stored.field n owner c).header.user = owner.user.toNat := by
    rw [fileMember]
    split <;> rfl
  have group : (fileMember stored.field n owner c).header.group = owner.group.toNat := by
    rw [fileMember]
    split <;> rfl
  rw [split, List.map_append] at records
  refine ⟨_, (fileMember stored.field n owner c).record, records, List.getLast?_concat, ?_, ?_⟩
  · rw [Member.record_user (by rw [user]; exact owner.user.toNat_lt), user]
  · rw [Member.record_group (by rw [group]; exact owner.group.toNat_lt), group]

end regular

end ArtifactCourier.Tar
