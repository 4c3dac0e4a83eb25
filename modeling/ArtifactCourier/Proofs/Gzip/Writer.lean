/-
  ArtifactCourier.Proofs.Gzip.Writer
  ──────────────────────────────────────
  **A gzip member that is written in pieces.**

  The bytes of a file arrive in pieces.  A writer keeps what the trailer needs from piece to
  piece: the remainder of the check, and the length in a word of 32 bits, which starts over
  when it is full.  What it compresses is left where the whole text would leave it
  (`Deflate.Encoder.write_write`).  So whatever the pieces are, what comes out is the member
  of the whole text.

    • `Member` — what exactly one gzip member is, in its parts and as it is read,
    • `member_encode` — the member that is written is one,
    • `Writer.Saw` — the invariant of a writer,
    • `encodePieces_eq` — the pieces of a text give the member of the text.
-/
import ArtifactCourier.Proofs.Checksum.Crc32
import ArtifactCourier.Proofs.Deflate.Pieces
import ArtifactCourier.Proofs.Gzip

namespace ArtifactCourier.Gzip

/-! ## §1. Members. -/

/-- The trailer of a text, from the text alone: the remainder of its division, and its length as
far as 32 bits tell it. -/
def ending (data : ByteArray) : ByteArray :=
  ofList (littleEndian 4 (Crc32.remainder data).toNat ++ littleEndian 4 (data.size % 2 ^ 32))

theorem trailer_eq_ending (data : ByteArray) : trailer data = ending data := by
  rw [trailer, ending, Crc32.ofBytes_eq_remainder]
  rfl

/-- **Exactly one member**, of a text: a header of ten bytes, a compressed form that says itself
where it ends and decompresses to the text, the trailer of the text, and nothing else. -/
structure Member (bytes data : ByteArray) : Prop where
  parts : ∃ body, bytes = header ++ body ++ ending data ∧ header.size = 10 ∧
    Deflate.decode? body = some (data, ByteArray.empty)
  read : decode? bytes = some data

theorem member_encode (data : ByteArray) : Member (encode data) data := by
  refine ⟨⟨Deflate.encode data, ?_, by decide, ?_⟩, decode?_encode data⟩
  · rw [encode, trailer_eq_ending]
  · have alone := Deflate.decode?_encode data ByteArray.empty
    rwa [ByteArray.append_empty] at alone

/-! ## §2. Writing in pieces. -/

namespace Writer

/-- What a writer knows after it saw a text. -/
structure Saw (w : Writer) (data : ByteArray) : Prop where
  check : w.check = Crc32.updateFrom data 0xFFFFFFFF 0
  length : w.length.toNat = data.size % 2 ^ 32
  body : w.body = Deflate.Encoder.start.write data

theorem saw_start : start.Saw ByteArray.empty where
  check := by
    rw [Crc32.updateFrom]
    rfl
  length := rfl
  body := Deflate.Encoder.write_empty.symm

/-- **A piece more is seen.** -/
theorem Saw.write {w : Writer} {data : ByteArray} (h : w.Saw data) (piece : ByteArray) :
    (w.write piece).Saw (data ++ piece) where
  check := by rw [Writer.write, h.check, Crc32.updateFrom_append]
  length := by
    rw [Writer.write, UInt32.toNat_add, h.length, ByteArray.size_append]
    simp
  body := by rw [Writer.write, h.body, Deflate.Encoder.write_write]

/-- **All pieces are seen, one after the other.** -/
theorem Saw.writeAll {w : Writer} {data : ByteArray} (h : w.Saw data) (pieces : List ByteArray) :
    (pieces.foldl Writer.write w).Saw (data ++ joined pieces) := by
  induction pieces generalizing w data with
  | nil => rwa [joined_nil, ByteArray.append_empty]
  | cons piece pieces ih =>
    rw [joined_cons, ← ByteArray.append_assoc]
    exact ih (h.write piece)

theorem Saw.finish {w : Writer} {data : ByteArray} (h : w.Saw data) : w.finish = encode data := by
  rw [Writer.finish, h.check, h.length, h.body]
  rfl

end Writer

/-- **The pieces of a text give the member of the text.** -/
theorem encodePieces_eq (pieces : List ByteArray) : encodePieces pieces = encode (joined pieces) := by
  have whole := (Writer.saw_start.writeAll pieces).finish
  rwa [ByteArray.empty_append] at whole

end ArtifactCourier.Gzip
