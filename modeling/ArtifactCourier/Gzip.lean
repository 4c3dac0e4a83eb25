/-
  ArtifactCourier.Gzip
  ──────────────────────────────────────
  **The gzip format: one compressed file.**

  A member has a header, a compressed text, and a trailer with the check value and the
  length of the text.  The header that is written here gives neither a name nor a time.
-/
import ArtifactCourier.Checksum.Crc32
import ArtifactCourier.Deflate.Decoder
import ArtifactCourier.Deflate.Encoder

namespace ArtifactCourier.Gzip

def ofList (bytes : List UInt8) : ByteArray := bytes.toByteArray

/-- The header: magic number, compression method, no flags, no time, no remarks on the effort,
and an unknown system. -/
def header : ByteArray := ofList [0x1F, 0x8B, 0x08, 0, 0, 0, 0, 0, 0, 0xFF]

/-- The `width` bytes of a number, the low one first. -/
def littleEndian : (width : Nat) → Nat → List UInt8
  | 0, _ => []
  | width + 1, n => n.toUInt8 :: littleEndian width (n / 256)

/-- The number that bytes write, the low one first. -/
def ofLittleEndian (bytes : List UInt8) : Nat := bytes.foldr (fun b n => b.toNat + 256 * n) 0

/-- The trailer of a text: its check value and its length, as 32-bit words. -/
def trailer (data : ByteArray) : ByteArray :=
  ofList (littleEndian 4 (Crc32.ofBytes data).toNat ++ littleEndian 4 (data.size % 0x100000000))

/-- **The gzip member of a text.** -/
def encode (data : ByteArray) : ByteArray := header ++ Deflate.encode data ++ trailer data

/-! ## §1. Writing in pieces. -/

/-- A writer of a member, between two pieces of the text. -/
structure Writer where
  /-- The remainder of the check. -/
  check : UInt32
  /-- The length, in a word that starts over when it is full. -/
  length : UInt32
  /-- The compressed text. -/
  body : Deflate.Encoder

namespace Writer

def start : Writer := ⟨0xFFFFFFFF, 0, .start⟩

/-- One piece more. -/
def write (w : Writer) (piece : ByteArray) : Writer :=
  let ⟨check, length, body⟩ := w
  ⟨Crc32.updateFrom piece check 0, length + piece.size.toUInt32, body.write piece⟩

/-- How many bytes of the member are written so far. -/
def written (w : Writer) : Nat := header.size + w.body.written

/-- The member, when nothing more comes. -/
def finish (w : Writer) : ByteArray :=
  header ++ w.body.finish
    ++ ofList (littleEndian 4 (w.check ^^^ 0xFFFFFFFF).toNat ++ littleEndian 4 w.length.toNat)

end Writer

/-- **The gzip member of a text that comes in pieces.** -/
def encodePieces (pieces : List ByteArray) : ByteArray :=
  (pieces.foldl Writer.write .start).finish

/-! ## §2. Reading. -/

/-- What is behind a field that a zero byte ends. -/
def skipText (bytes : List UInt8) : List UInt8 := (bytes.dropWhile (· != 0)).drop 1

def hasFlag (flags : UInt8) (bit : Nat) : Bool := flags.toNat.testBit bit

/-- What is behind the optional fields that the flags announce. -/
def skipFields (flags : UInt8) (bytes : List UInt8) : List UInt8 :=
  let bytes := if hasFlag flags 2 then bytes.drop (2 + ofLittleEndian (bytes.take 2)) else bytes
  let bytes := if hasFlag flags 3 then skipText bytes else bytes
  let bytes := if hasFlag flags 4 then skipText bytes else bytes
  if hasFlag flags 1 then bytes.drop 2 else bytes

/-- What is behind the header of a member. -/
def skipHeader? (data : ByteArray) : Option ByteArray :=
  match (data.extract 0 10).toList with
  | [0x1F, 0x8B, 0x08, flags, _, _, _, _, _, _] =>
    let rest := data.extract 10 data.size
    if flags = 0 then some rest
    else if flags ≥ 0x20 then none
    else some (skipFields flags rest.toList).toByteArray
  | _ => none

/-- **The text of a file that is exactly one member**, with a trailer that fits. -/
def decode? (data : ByteArray) : Option ByteArray := do
  let rest ← skipHeader? data
  let (text, ending) ← Deflate.decode? rest
  if sameBytes ending (trailer text) then some text else none

end ArtifactCourier.Gzip
