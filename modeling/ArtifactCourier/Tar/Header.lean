/-
  ArtifactCourier.Tar.Header
  ──────────────────────────────────────
  **Headers of archive members.**

  A header is a block of 512 bytes with fields at fixed places.  Numbers are written in
  octal digits, or, where those do not suffice, in binary behind a mark.  A member whose
  file has holes lists the stretches that are stored: the first of them in its header, the
  others in blocks of their own behind it.
-/
import ArtifactCourier.Path

namespace ArtifactCourier.Tar

def blockSize : Nat := 512

/-! ## §1. Fields. -/

/-- The bytes of a field: the value, and zeros up to its width. -/
def textField (width : Nat) (bytes : List UInt8) : List UInt8 :=
  bytes.take width ++ List.replicate (width - bytes.length) 0

/-- The last `width` octal digits of a number. -/
def octalDigits : (width : Nat) → Nat → List UInt8
  | 0, _ => []
  | width + 1, n => octalDigits width (n / 8) ++ [(0x30 + n % 8).toUInt8]

/-- The last `width` bytes of a number, the high one first. -/
def bigEndian : (width : Nat) → Nat → List UInt8
  | 0, _ => []
  | width + 1, n => bigEndian width (n / 256) ++ [n.toUInt8]

/-- A number in octal digits and a zero byte. -/
def octalField (width n : Nat) : List UInt8 := octalDigits (width - 1) n ++ [0]

/-- A number in octal digits if they suffice, else in binary with the high bit of the first
byte set. -/
def numberField (width n : Nat) : List UInt8 :=
  if n < Nat.pow 8 (width - 1) then octalField width n
  else
    match bigEndian width n with
    | [] => []
    | b :: rest => (b ||| 0x80) :: rest

/-- The number that octal digits write; a zero byte or a space ends them. -/
def readOctal (bytes : List UInt8) : Nat :=
  (bytes.takeWhile fun b => b != 0 && b != 0x20).foldl (fun n b => n * 8 + (b.toNat - 0x30)) 0

def readNumber (bytes : List UInt8) : Nat :=
  match bytes with
  | b :: rest =>
    if b ≥ 0x80 then rest.foldl (fun n b => n * 256 + b.toNat) (b.toNat - 0x80)
    else readOctal bytes
  | [] => 0

/-! ## §2. Headers. -/

/-- A stretch of a file that is stored. -/
structure Extent where
  offset : Nat
  length : Nat
deriving DecidableEq, Repr

/-- The stored stretches of a file with holes. -/
structure SparseMap where
  /-- The length of the file with its holes. -/
  realSize : Nat
  extents : List Extent
deriving DecidableEq, Repr

/-- What a member is. -/
inductive MemberKind where
  | file
  /-- A file of which only stretches are stored. -/
  | sparseFile (map : SparseMap)
  | directory
  | fifo
  | device
  /-- The name of the next member, too long for a header. -/
  | longName
deriving DecidableEq, Repr

namespace MemberKind

/-- The mark of a member that lists its stretches. -/
def sparseFlag : UInt8 := 0x53

/-- The mark of what a member is. -/
def flag : MemberKind → UInt8
  | file => 0x30
  | sparseFile _ => sparseFlag
  | directory => 0x35
  | fifo => 0x36
  | device => 0x33
  | longName => 0x4C

def map? : MemberKind → Option SparseMap
  | sparseFile map => some map
  | _ => none

/-- The stretches that a member lists. -/
def extents (kind : MemberKind) : List Extent := kind.map?.elim [] (·.extents)

end MemberKind

/-- A header, as it is written. -/
structure Header where
  name : List UInt8
  mode : Nat
  user : Nat
  group : Nat
  size : Nat
  mtime : Nat
  kind : MemberKind
  /-- The numbers of a device; also written for a pipe. -/
  device : Option (Nat × Nat)
deriving DecidableEq, Repr

/-- How many stretches a header has room for. -/
def maxExtents : Nat := 4

/-- How many stretches a block behind a header has room for. -/
def maxFurtherExtents : Nat := 21

def Extent.field (e : Extent) : List UInt8 := numberField 12 e.offset ++ numberField 12 e.length

/-- The fields of as many stretches as there is room for, and whether there are more. -/
def extentFields (room : Nat) (extents : List Extent) : List UInt8 :=
  textField (24 * room) (extents.flatMap Extent.field)
    ++ [if extents.length > room then 1 else 0]

/-- The fields of the stored stretches, with the real size behind them. -/
def sparseFields : Option SparseMap → List UInt8
  | none => List.replicate (24 * maxExtents + 1 + 12) 0
  | some m => extentFields maxExtents m.extents ++ numberField 12 m.realSize

/-- The blocks behind a header, with the stretches that it has no room for. -/
def extension : List Extent → List UInt8
  | [] => []
  | e :: rest =>
    extentFields maxFurtherExtents (e :: rest) ++ List.replicate 7 0
      ++ extension (rest.drop (maxFurtherExtents - 1))
termination_by extents => extents.length
decreasing_by simp only [List.length_drop, List.length_cons]; omega

namespace Header

def front (h : Header) : List UInt8 :=
  textField 100 h.name ++ octalField 8 h.mode ++ numberField 8 h.user ++ numberField 8 h.group
    ++ numberField 12 h.size ++ numberField 12 h.mtime

/-- The mark of the format, with its version. -/
def magic : List UInt8 := [0x75, 0x73, 0x74, 0x61, 0x72, 0x20, 0x20, 0]

def back (h : Header) : List UInt8 :=
  h.kind.flag :: List.replicate 100 0 ++ magic
    ++ List.replicate 64 0
    ++ (match h.device with
      | some (major, minor) => octalField 8 major ++ octalField 8 minor
      | none => List.replicate 16 0)
    ++ List.replicate (12 + 12 + 12 + 4 + 1) 0
    ++ sparseFields h.kind.map?
    ++ List.replicate 17 0

def byteSum (bytes : List UInt8) : Nat := bytes.foldr (fun b n => b.toNat + n) 0

/-- The sum of the bytes, with spaces where the sum itself is written. -/
def checksum (h : Header) : Nat :=
  byteSum h.front + 8 * 0x20 + byteSum h.back

/-- **The block of a header.** -/
def bytes (h : Header) : List UInt8 := h.front ++ octalField 8 h.checksum ++ h.back

end Header
end ArtifactCourier.Tar
