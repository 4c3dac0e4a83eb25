/-
  ArtifactCourier.Deflate.Bits
  ──────────────────────────────────────
  **Bit strings and the bytes that hold them.**

  A compressed stream is a string of bits; a byte holds eight of them, the low one first.
  The writer collects fields of several bits, the reader sees single bits.
-/
import ArtifactCourier.Bytes

namespace ArtifactCourier.Deflate

/-! ## §1. Fields. -/

/-- The low `width` bits of a number. -/
structure BitField where
  value : Nat
  width : Nat
deriving DecidableEq, Repr, Inhabited

/-- The bits of a field, the low one first. -/
def BitField.bits (f : BitField) : List Bool := (List.range f.width).map f.value.testBit

/-- The field whose bits are those of a list, the first one lowest. -/
def BitField.ofBits (bits : List Bool) : BitField :=
  ⟨bits.foldr (fun b n => 2 * n + b.toNat) 0, bits.length⟩

/-! ## §2. Writing. -/

/-- Whole bytes, and the bits that do not fill one yet. -/
structure BitWriter where
  bytes : ByteArray
  /-- The bits left over, the first one lowest. -/
  pending : Nat
  /-- How many bits are left over. -/
  count : Nat

namespace BitWriter

/-- Nothing written yet. -/
def empty : BitWriter := ⟨ByteArray.empty, 0, 0⟩

/-- Moves what fills bytes out of the bits left over. -/
def settle (bytes : ByteArray) (pending count : Nat) : BitWriter :=
  if count < 8 then ⟨bytes, pending, count⟩
  else settle (bytes.push pending.toUInt8) (pending / 256) (count - 8)
termination_by count

def put (w : BitWriter) (f : BitField) : BitWriter :=
  settle w.bytes (w.pending + (f.value % Nat.pow 2 f.width) * Nat.pow 2 w.count) (w.count + f.width)

def putAll (w : BitWriter) (fields : List BitField) : BitWriter := fields.foldl put w

def bitCount (w : BitWriter) : Nat := 8 * w.bytes.size + w.count

def padding (w : BitWriter) : BitField := ⟨0, (8 - w.count) % 8⟩

/-- The bytes, the last one filled with zero bits. -/
def finish (w : BitWriter) : ByteArray := (w.put w.padding).bytes

end BitWriter

/-! ## §3. Reading. -/

/-- The bits of a byte, the low one first. -/
def bitsOfByte (b : UInt8) : List Bool := (List.range 8).map b.toNat.testBit

/-- The bits of the first `n` bytes in front of `rest`. -/
def bitsBefore (data : ByteArray) : (n : Nat) → (rest : List Bool) → List Bool
  | 0, rest => rest
  | n + 1, rest => bitsBefore data n (bitsOfByte (byteAt data n) ++ rest)

def bitsOf (data : ByteArray) : List Bool := bitsBefore data data.size []

/-- The number that the next `width` bits write, the low one first. -/
def takeNumber : (width : Nat) → List Bool → Option (Nat × List Bool)
  | 0, bits => some (0, bits)
  | _ + 1, [] => none
  | width + 1, b :: bits => do
    let (n, rest) ← takeNumber width bits
    some (2 * n + b.toNat, rest)

end ArtifactCourier.Deflate
