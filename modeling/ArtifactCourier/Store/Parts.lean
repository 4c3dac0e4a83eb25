/-
  ArtifactCourier.Store.Parts
  ──────────────────────────────────────
  **How a large file is cut into parts.**

  Parts are numbered from 1, all but the last have `Defaults.partSize` bytes, and
  together they tile the file.  Lengths are 64-bit words to the callers, so what is computed
  from them is only defined where no step leaves 64 bits: `partCount?` and `partRange?` take
  one step after the other.
-/
import ArtifactCourier.Defaults

namespace ArtifactCourier.Store

def maxWord : Nat := 0xFFFFFFFFFFFFFFFF

/-! ## §1. Steps on words. -/

namespace Word

/-- The sum of two words, if it is a word. -/
def add? (a b : Nat) : Option Nat := if a + b ≤ maxWord then some (a + b) else none

/-- The product of two words, if it is a word. -/
def mul? (a b : Nat) : Option Nat := if a * b ≤ maxWord then some (a * b) else none

/-- The difference of two words, if nothing has to be borrowed. -/
def sub? (a b : Nat) : Option Nat := if b ≤ a then some (a - b) else none

theorem add?_of_le {a b : Nat} (h : a + b ≤ maxWord) : add? a b = some (a + b) := if_pos h

theorem add?_of_lt {a b : Nat} (h : maxWord < a + b) : add? a b = none := if_neg (Nat.not_le.2 h)

theorem mul?_of_le {a b : Nat} (h : a * b ≤ maxWord) : mul? a b = some (a * b) := if_pos h

theorem sub?_of_le {a b : Nat} (h : b ≤ a) : sub? a b = some (a - b) := if_pos h

end Word

/-! ## §2. Parts. -/

/-- The number of parts of a file: its length over the part size, rounded up, but at least 1. -/
def partCount (size : Nat) : Nat := max 1 ((size + Defaults.partSize - 1) / Defaults.partSize)

/-- The number of parts as computed on 64-bit words, from left to right: rounding up adds the
part size before it divides. -/
def partCount? (size : Nat) : Option Nat := do
  let sum ← Word.add? size Defaults.partSize
  let above ← Word.sub? sum 1
  some (max 1 (above / Defaults.partSize))

def partStart (number : Nat) : Nat := (number - 1) * Defaults.partSize

/-- Where part `number` of a file of `size` bytes ends. -/
def partEnd (size number : Nat) : Nat := min (number * Defaults.partSize) size

def partLength (size number : Nat) : Nat := partEnd size number - partStart number

/-- The bytes of a file from `start` up to `stop`, and how many they are. -/
structure PartRange where
  start : Nat
  stop : Nat
  length : Nat
  deriving DecidableEq, Repr

/-- The range of a part. -/
def partRange (size number : Nat) : PartRange :=
  ⟨partStart number, partEnd size number, partLength size number⟩

/-- The range of a part as computed on 64-bit words. -/
def partRange? (size number : Nat) : Option PartRange := do
  let before ← Word.sub? number 1
  let start ← Word.mul? before Defaults.partSize
  let reach ← Word.mul? number Defaults.partSize
  let stop := min reach size
  let length ← Word.sub? stop start
  some ⟨start, stop, length⟩

/-- There are enough parts for the file. -/
theorem size_le_partCount_mul (size : Nat) : size ≤ partCount size * Defaults.partSize := by
  simp only [partCount, Defaults.partSize]
  omega

/-- A part starts where the one before it ends, if the file goes on there. -/
theorem partEnd_eq_partStart_succ {size number : Nat} (h : number * Defaults.partSize ≤ size) :
    partEnd size number = partStart (number + 1) := by
  simp [partEnd, partStart, h]

theorem partEnd_partCount (size : Nat) : partEnd size (partCount size) = size :=
  Nat.min_eq_right (size_le_partCount_mul size)

end ArtifactCourier.Store
