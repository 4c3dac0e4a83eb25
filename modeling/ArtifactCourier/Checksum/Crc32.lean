/-
  ArtifactCourier.Checksum.Crc32
  ──────────────────────────────────────
  **The cyclic redundancy check of gzip.**

  The remainder of the bytes, read as a polynomial with the low bit first, divided by
  the polynomial 0xEDB88320.  Bytes may come in pieces: the check of a whole is the
  check of its end continued from that of its beginning (`updateList_append`).
-/

namespace ArtifactCourier.Crc32

/-- The dividing polynomial, low bit first. -/
def polynomial : UInt32 := 0xEDB88320

/-- One step of the division: one bit. -/
def shiftBit (r : UInt32) : UInt32 :=
  if r &&& 1 = 1 then (r >>> 1) ^^^ polynomial else r >>> 1

def entry (n : Nat) : UInt32 :=
  (List.range 8).foldl (fun r _ => shiftBit r) n.toUInt32

def table : Array UInt32 := Array.ofFn fun i : Fin 256 => entry i.val

def step (r : UInt32) (b : UInt8) : UInt32 :=
  table.getD ((r ^^^ b.toUInt32) &&& 0xFF).toNat 0 ^^^ (r >>> 8)

/-- The remainder with the bytes from place `i` on. -/
def updateFrom (data : ByteArray) (r : UInt32) (i : Nat) : UInt32 :=
  if h : i < data.size then updateFrom data (step r data[i]) (i + 1) else r
termination_by data.size - i

/-- **The check value of a byte string.** -/
def ofBytes (data : ByteArray) : UInt32 := updateFrom data 0xFFFFFFFF 0 ^^^ 0xFFFFFFFF

def updateList (r : UInt32) (bytes : List UInt8) : UInt32 := bytes.foldl step r

theorem updateList_append (r : UInt32) (a b : List UInt8) :
    updateList r (a ++ b) = updateList (updateList r a) b := by
  simp [updateList]

end ArtifactCourier.Crc32
