/-
  ArtifactCourier.FileSystem.Content
  ──────────────────────────────────────
  **The bytes of a regular file.**

  A file may have holes: bytes that read as zeros and take up no room.  A file that is made
  longer without being written gets one at its end; room is given out in whole blocks, so that
  hole begins where a block ends.

    • `size_bytes` — a file has as many bytes as its size says.
    • `size_resize` — and after it was resized, as many as it was resized to.
-/
import ArtifactCourier.Bytes

namespace ArtifactCourier

/-- A stretch of a file. -/
inductive Stretch where
  /-- Bytes that are stored. -/
  | data (bytes : ByteArray)
  /-- Zeros that are not. -/
  | hole (length : Nat)

namespace Stretch

def size : Stretch → Nat
  | data bytes => bytes.size
  | hole length => length

def bytes : Stretch → ByteArray
  | data bytes => bytes
  | hole length => zeros length

/-- What takes up room. -/
def stored : Stretch → ByteArray
  | data bytes => bytes
  | hole _ => ByteArray.empty

def isHole (s : Stretch) : Bool := s matches hole _

/-- The first `n` bytes of a stretch. -/
def take (n : Nat) : Stretch → Stretch
  | data bytes => data (bytes.extract 0 n)
  | hole length => hole (min n length)

@[simp] theorem size_bytes (s : Stretch) : s.bytes.size = s.size := by
  cases s with
  | data bytes => rfl
  | hole length => exact size_zeros length

theorem size_take {n : Nat} {s : Stretch} (h : n ≤ s.size) : (s.take n).size = n := by
  cases s with
  | data bytes =>
    rw [take, size, ByteArray.size_extract, Nat.sub_zero]
    exact Nat.min_eq_left h
  | hole length => exact Nat.min_eq_left h

end Stretch

/-- The contents of a regular file: its stretches, one behind the other. -/
structure Content where
  stretches : List Stretch

namespace Content

/-- The contents that were written as they are. -/
def ofBytes (bytes : ByteArray) : Content := ⟨[.data bytes]⟩

def empty : Content := ofBytes ByteArray.empty

def lengthOf : List Stretch → Nat
  | [] => 0
  | s :: rest => s.size + lengthOf rest

def size (c : Content) : Nat := lengthOf c.stretches

def bytes (c : Content) : ByteArray := joined (c.stretches.map Stretch.bytes)

/-- The bytes that are stored, one behind the other. -/
def stored (c : Content) : ByteArray := joined (c.stretches.map Stretch.stored)

@[simp] theorem bytes_ofBytes (bytes : ByteArray) : (ofBytes bytes).bytes = bytes :=
  ByteArray.empty_append

/-- A file has as many bytes as its size says. -/
@[simp] theorem size_bytes (c : Content) : c.bytes.size = c.size := by
  obtain ⟨stretches⟩ := c
  induction stretches with
  | nil => rfl
  | cons s rest ih =>
    rw [bytes, List.map_cons, joined_cons, ByteArray.size_append, Stretch.size_bytes]
    exact congrArg (s.size + ·) ih

def blockSize : Nat := 4096

/-- How far it is from `n` to the end of the block. -/
def toBlockEnd (n : Nat) : Nat := (blockSize - n % blockSize) % blockSize

/-- Whether the last byte is not stored. -/
def endsInHole (c : Content) : Bool :=
  c.stretches.foldl (fun inHole s => if s.size = 0 then inHole else s.isHole) false

/-- The stretches of the first `size` bytes. -/
def takeFrom (size : Nat) : List Stretch → List Stretch
  | [] => []
  | s :: rest => if size ≤ s.size then [s.take size] else s :: takeFrom (size - s.size) rest

/-- The contents cut off, or with zeros behind them; those in the last block take no more
room than it has. -/
def resize (c : Content) (size : Nat) : Content :=
  if size ≤ c.size then ⟨takeFrom size c.stretches⟩
  else
    let pad := if c.endsInHole then 0 else min (toBlockEnd c.size) (size - c.size)
    ⟨c.stretches ++ [.data (zeros pad), .hole (size - c.size - pad)]⟩

theorem lengthOf_append (first second : List Stretch) :
    lengthOf (first ++ second) = lengthOf first + lengthOf second := by
  induction first with
  | nil => exact (Nat.zero_add _).symm
  | cons s first ih => rw [List.cons_append, lengthOf, lengthOf, ih, Nat.add_assoc]

theorem lengthOf_takeFrom {size : Nat} {stretches : List Stretch} (h : size ≤ lengthOf stretches) :
    lengthOf (takeFrom size stretches) = size := by
  induction stretches generalizing size with
  | nil => exact (Nat.le_zero.1 h).symm
  | cons s rest ih =>
    rw [takeFrom]
    split
    case isTrue within => exact Stretch.size_take within
    case isFalse behind =>
      rw [lengthOf] at h ⊢
      rw [ih (by omega)]
      omega

@[simp] theorem size_resize (c : Content) (n : Nat) : (c.resize n).size = n := by
  rw [resize]
  split
  case isTrue shorter => exact lengthOf_takeFrom shorter
  case isFalse longer =>
    simp only [size, lengthOf_append, lengthOf, Stretch.size, size_zeros] at longer ⊢
    split <;> omega

end Content
end ArtifactCourier
