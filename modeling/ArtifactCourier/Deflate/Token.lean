/-
  ArtifactCourier.Deflate.Token
  ──────────────────────────────────────
  **Text as bytes and references to earlier bytes.**

  A reference copies bytes that were produced before, from 1 to 32768 bytes back; it may
  reach into what it produces itself.  `Token.expand?` gives the text that tokens stand for.
  Lengths and distances are written as a symbol, which names a range, and extra bits, which
  choose in it.
-/

import ArtifactCourier.Deflate.Bits

namespace ArtifactCourier.Deflate

/-- A piece of a compressed text. -/
inductive Token where
  /-- One byte. -/
  | byte (b : UInt8)
  /-- As many bytes as `length` says, from `distance` bytes back. -/
  | copy (length distance : Nat)
deriving DecidableEq, Repr

namespace Token

/-- The number of bytes a token stands for. -/
def length : Token → Nat
  | byte _ => 1
  | copy length _ => length

/-- `n` bytes more, each the one `distance` bytes back. -/
def copyFrom (distance : Nat) : (n : Nat) → ByteArray → ByteArray
  | 0, out => out
  | n + 1, out => copyFrom distance n (out.push (byteAt out (out.size - distance)))

/-- The text with what a token stands for behind it; a reference must not reach back further
than the text. -/
def append? (out : ByteArray) : Token → Option ByteArray
  | byte b => some (out.push b)
  | copy length distance =>
    if 1 ≤ distance ∧ distance ≤ out.size then some (copyFrom distance length out) else none

/-- The text that tokens stand for. -/
def expand? (tokens : List Token) : Option ByteArray := tokens.foldlM append? ByteArray.empty

end Token

/-! ## §1. Ranges. -/

/-- A range of numbers that share a symbol. -/
structure Range where
  /-- The least number of the range. -/
  base : Nat
  /-- How many extra bits choose in it. -/
  extra : Nat
deriving DecidableEq, Repr

/-- Ranges that follow each other: each starts where the one before it ends. -/
def rangesFrom (base : Nat) : List Nat → List Range
  | [] => []
  | extra :: rest => ⟨base, extra⟩ :: rangesFrom (base + Nat.pow 2 extra) rest

def lengthRanges : List Range :=
  rangesFrom 3 [0, 0, 0, 0, 0, 0, 0, 0, 1, 1, 1, 1, 2, 2, 2, 2, 3, 3, 3, 3, 4, 4, 4, 4, 5, 5, 5, 5]
    ++ [⟨258, 0⟩]

def distanceRanges : List Range :=
  rangesFrom 1 [0, 0, 0, 0, 1, 1, 2, 2, 3, 3, 4, 4, 5, 5, 6, 6, 7, 7, 8, 8, 9, 9, 10, 10, 11, 11,
    12, 12, 13, 13]

/-- The place of the last range that starts at `n` or before, and that range. -/
def rangeOf? (ranges : List Range) (n : Nat) : Option (Nat × Range) :=
  (ranges.zipIdx.filter fun (r, _) => r.base ≤ n).getLast?.map fun (r, i) => (i, r)

/-- The ranges of all lengths up to 258, looked up once. -/
def lengthTable : Array (Nat × Range) :=
  Array.ofFn fun n : Fin 259 => (rangeOf? lengthRanges n.val).getD (0, ⟨3, 0⟩)

def endOfBlock : Nat := 256

def firstLengthSymbol : Nat := 257

/-- The least length that is worth a reference. -/
def minLength : Nat := 3

def maxLength : Nat := 258

def maxDistance : Nat := 32768

end ArtifactCourier.Deflate
