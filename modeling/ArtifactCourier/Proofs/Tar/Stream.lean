/-
  ArtifactCourier.Proofs.Tar.Stream
  ──────────────────────────────────────
  **An archive is a stream of blocks.**

  An archive has whole blocks only, the last two of them are zeros, and every header carries
  the sum of its own bytes.  A file is found in it with its permission bits and its time, as
  long as these are numbers that the operating system can have given.

    • `Header.checksOut` — the sum that a header carries is right,
    • `Archives` — what it means that a stream archives one regular file,
    • `archives_of_file` — the archive of a file does.
-/
import ArtifactCourier.Proofs.Tar.Members

namespace ArtifactCourier

/-- What the operating system can say of a file: twelve permission bits, a length that is a 64-bit
number, and a time that is one and not before the epoch. -/
structure Node.Reported (n : Node) : Prop where
  mode : n.mode < 0o10000
  size : n.size < 2 ^ 64
  mtime : 0 ≤ n.mtime ∧ n.mtime < 2 ^ 63

namespace Tar

/-! ## §1. Sums. -/

/-- A block carries the sum of its bytes, with spaces in place of the sum itself. -/
def ChecksOut (block : List UInt8) : Prop :=
  readOctal (slice block 148 8)
    = Header.byteSum (block.take 148 ++ List.replicate 8 0x20 ++ block.drop 156)

namespace Header

theorem byteSum_append (a b : List UInt8) : byteSum (a ++ b) = byteSum a + byteSum b := by
  induction a with
  | nil => simp [byteSum]
  | cons x a ih =>
    simp only [byteSum, List.cons_append, List.foldr_cons] at ih ⊢
    rw [ih, Nat.add_assoc]

theorem byteSum_le (bytes : List UInt8) : byteSum bytes ≤ 255 * bytes.length := by
  induction bytes with
  | nil => exact Nat.zero_le _
  | cons b bytes ih =>
    have byte : b.toNat < 256 := b.toNat_lt
    simp only [byteSum, List.foldr_cons, List.length_cons] at ih ⊢
    omega

/-- **The sum that a header carries is right.** -/
theorem checksOut (h : Header) : ChecksOut h.bytes := by
  have small : h.checksum < 8 ^ 7 := by
    have front := byteSum_le h.front
    have back := byteSum_le h.back
    rw [length_front] at front
    rw [length_back] at back
    rw [checksum]
    omega
  have sum : slice h.bytes 148 8 = octalField 8 h.checksum :=
    slice_between h.length_front (by simp)
  have before : h.bytes.take 148 = h.front := by
    rw [bytes, List.append_assoc]
    exact List.take_left' h.length_front
  have behind : h.bytes.drop 156 = h.back := by
    rw [bytes]
    exact List.drop_left' (by simp)
  rw [ChecksOut, sum, readOctal_octalField small, before, behind, byteSum_append, byteSum_append]
  rfl

end Header

/-! ## §2. Blocks. -/

/-- The last block of a member is filled. -/
theorem size_bytes_mod (m : Member) : m.bytes.size % blockSize = 0 := by
  rw [m.size_bytes, fill, Nat.add_assoc, Nat.mul_add_mod]
  simp only [blockSize]
  omega

theorem size_membersBytes_mod (members : List Member) :
    (membersBytes members).size % blockSize = 0 := by
  induction members with
  | nil => rfl
  | cons m members ih =>
    have whole := size_bytes_mod m
    rw [membersBytes_cons, ByteArray.size_append]
    simp only [blockSize] at *
    omega

theorem size_archive_mod (members : List Member) : (archive members).size % blockSize = 0 := by
  have whole := size_membersBytes_mod members
  rw [archive, ByteArray.size_append, ending, size_zeros]
  simp only [blockSize] at *
  omega

/-! ## §3. Files. -/

/-- **A stream archives one regular file.** -/
structure Archives (stream : ByteArray) (name : RawText) (n : Node) (content : Content) : Prop where
  /-- It has whole blocks. -/
  blocks : stream.size % 512 = 0
  /-- The last two of them are zeros. -/
  ended : ∃ front, stream = front ++ zeros (2 * 512)
  /-- Its headers check out. -/
  headers : ∃ members, stream = archive members ∧ ∀ m ∈ members, ChecksOut m.header.bytes
  /-- An extractor makes one file of it: a regular one of that name, with the permission bits, the
  time and the bytes of the file. -/
  extracted : members? stream
    = some [⟨name.bytes, MemberKind.file.flag, 0o100000 + n.mode, n.mtime.toNat, content.bytes⟩]

/-- The last record of a stream says whom its file belongs to. -/
def BelongsTo (stream : ByteArray) (owner : Owner) : Prop :=
  ∃ records r, records? stream = some records ∧ records.getLast? = some r ∧
    r.user = owner.user.toNat ∧ r.group = owner.group.toNat

theorem timeWord_eq {mtime : Int} (h : 0 ≤ mtime ∧ mtime < 2 ^ 63) :
    timeWord mtime = mtime.toNat := by
  rw [timeWord, Int.emod_eq_of_lt h.1 (by omega)]

/-- The header of a file's member says what its mode and its time are. -/
theorem fileMember_attributes (field : List UInt8) {n : Node} (owner : Owner) {c : Content}
    (regular : n.kind = .file c) (reported : n.Reported) :
    (fileMember field n owner c).record.mode = 0o100000 + n.mode ∧
      (fileMember field n owner c).record.mtime = n.mtime.toNat := by
  have mode : (fileMember field n owner c).header.mode = 0o100000 + n.mode := by
    have bits : kindBits n.kind = 0o100000 := by rw [regular]; rfl
    rw [fileMember]
    split <;> simp [headerOf, bits]
  have mtime : (fileMember field n owner c).header.mtime = n.mtime.toNat := by
    rw [fileMember, ← timeWord_eq reported.mtime]
    split <;> rfl
  have bits := reported.mode
  have time := reported.mtime
  constructor
  · rw [Member.record_mode (by rw [mode]; omega), mode]
  · rw [Member.record_mtime (by rw [mtime, maxNumber]; omega), mtime]

section file

variable {path : Path} {name : RawText} {n : Node} {owner : Owner} {c : Content}
  (regular : n.kind = .file c) (reported : n.Reported) (step : name.IsStep)
  (short : name.bytes.length < FileSystem.maxPathLength) {members : List Member}
  (h : membersOf path name n owner = .ok members)

include regular reported step short h

/-- **The archive of a regular file archives it.** -/
theorem archives_of_file (plain : 0 ∉ name.bytes) : Archives (archive members) name n c := by
  have size := reported.size
  rw [Node.size, regular] at size
  obtain ⟨field, extracted⟩ := members?_of_regular regular step
    (Nat.lt_of_le_of_lt short (by decide)) (Nat.lt_trans size (by decide)) h plain
  obtain ⟨mode, mtime⟩ := fileMember_attributes field owner regular reported
  rw [mode, mtime] at extracted
  exact ⟨size_archive_mod members, ⟨membersBytes members, rfl⟩,
    ⟨members, rfl, fun m _ => m.header.checksOut⟩, extracted⟩

/-- **It says whom the file belongs to**, however large the numbers of user and group are. -/
theorem belongsTo_of_file : BelongsTo (archive members) owner := by
  have size := reported.size
  rw [Node.size, regular] at size
  exact exists_owner regular step (Nat.lt_of_le_of_lt short (by decide))
    (Nat.lt_trans size (by decide)) h

end file

end Tar
end ArtifactCourier
