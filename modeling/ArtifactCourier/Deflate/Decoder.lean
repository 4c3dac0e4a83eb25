/-
  ArtifactCourier.Deflate.Decoder
  ──────────────────────────────────────
  **Reading a compressed text.**

  A text is a sequence of blocks; the last one is marked.  Every block either stores
  bytes as they are or holds tokens in prefix codes.
-/
import ArtifactCourier.Deflate.Block

namespace ArtifactCourier.Deflate

/-! ## §1. Tokens. -/

/-- The number in a range that the next bits choose. -/
def readInRange? (r : Range) (bits : List Bool) : Option (Nat × List Bool) := do
  let (n, rest) ← takeNumber r.extra bits
  some (r.base + n, rest)

/-- What the next bits say in the codes of a block: a token, or the end of the block. -/
def readToken? (trees : BlockTrees) (bits : List Bool) : Option (Option Token × List Bool) := do
  let (symbol, rest) ← trees.literals.read? bits
  if symbol < endOfBlock then some (some (.byte symbol.toUInt8), rest)
  else if symbol = endOfBlock then some (none, rest)
  else
    let range ← lengthRanges[symbol - firstLengthSymbol]?
    let (length, rest) ← readInRange? range rest
    let (symbol, rest) ← trees.distances.read? rest
    let range ← distanceRanges[symbol]?
    let (distance, rest) ← readInRange? range rest
    some (some (.copy length distance), rest)

/-- The text with the tokens of a block behind it.  Every token takes a bit. -/
def readTokens? (trees : BlockTrees) :
    (steps : Nat) → (out : ByteArray) → List Bool → Option (ByteArray × List Bool)
  | 0, _, _ => none
  | steps + 1, out, bits =>
    match readToken? trees bits with
    | none => none
    | some (none, rest) => some (out, rest)
    | some (some t, rest) =>
      match t.append? out with
      | none => none
      | some out => readTokens? trees steps out rest

/-! ## §2. Descriptions of codes. -/

def readRun? (tree : CodeTree) (bits : List Bool) : Option (Run × List Bool) := do
  let (symbol, rest) ← tree.read? bits
  if symbol < 16 then some (.one symbol, rest)
  else if symbol = 16 then
    let (n, rest) ← takeNumber 2 rest
    some (.again (n + 3), rest)
  else if symbol = 17 then
    let (n, rest) ← takeNumber 3 rest
    some (.zeros (n + 3), rest)
  else
    let (n, rest) ← takeNumber 7 rest
    some (.manyZeros (n + 11), rest)

/-- Word lengths up to a count, which the runs must meet; the last one first. -/
def readLengths? (tree : CodeTree) (count : Nat) :
    (steps : Nat) → (reversed : List Nat) → List Bool → Option (List Nat × List Bool)
  | 0, reversed, bits => if reversed.length = count then some (reversed, bits) else none
  | steps + 1, reversed, bits =>
    if reversed.length = count then some (reversed, bits)
    else if reversed.length > count then none
    else do
      let (run, rest) ← readRun? tree bits
      let reversed ← run.append? reversed
      readLengths? tree count steps reversed rest

/-- Numbers of three bits each. -/
def readSmallNumbers? : (n : Nat) → List Bool → Option (List Nat × List Bool)
  | 0, bits => some ([], bits)
  | n + 1, bits => do
    let (first, rest) ← takeNumber 3 bits
    let (more, rest) ← readSmallNumbers? n rest
    some (first :: more, rest)

/-- The word lengths of the third code, from the order in which they are written. -/
def runLengths (written : List Nat) : List Nat :=
  (List.range 19).map fun symbol => ((runOrder.zip written).lookup symbol).getD 0

/-- The trees of the codes that the next bits describe. -/
def readTrees? (bits : List Bool) : Option (BlockTrees × List Bool) := do
  let (l, rest) ← takeNumber 5 bits
  let (d, rest) ← takeNumber 5 rest
  let (r, rest) ← takeNumber 4 rest
  let (written, rest) ← readSmallNumbers? (r + 4) rest
  let runTree ← CodeTree.ofLengths? maxRunWordLength (runLengths written)
  let literalCount := l + minLiteralCount
  let count := literalCount + (d + 1)
  let (reversed, rest) ← readLengths? runTree count count [] rest
  let lengths := reversed.reverse
  let trees ← BlockTrees.ofLengths? (lengths.take literalCount) (lengths.drop literalCount)
  some (trees, rest)

/-! ## §3. Blocks. -/

/-- The text with `n` stored bytes behind it. -/
def readStored? : (n : Nat) → (out : ByteArray) → List Bool → Option (ByteArray × List Bool)
  | 0, out, bits => some (out, bits)
  | n + 1, out, bits => do
    let (b, rest) ← takeNumber 8 bits
    readStored? n (out.push b.toUInt8) rest

/-- The text with a block behind it, whether it was the last one, and the bits behind it. -/
def readBlock? (total : Nat) (out : ByteArray) (bits : List Bool) :
    Option (Bool × ByteArray × List Bool) := do
  let (last, rest) ← takeNumber 1 bits
  let (kind, rest) ← takeNumber 2 rest
  if kind = 0 then
    -- the bytes of a stored block begin with a whole byte of the stream
    let rest := rest.drop (rest.length % 8)
    let (size, rest) ← takeNumber 16 rest
    let (complement, rest) ← takeNumber 16 rest
    if size + complement = 0xFFFF then
      let (out, rest) ← readStored? size out rest
      some (last = 1, out, rest)
    else none
  else if kind = 1 then
    let trees ← fixedTrees?
    let (out, rest) ← readTokens? trees total out rest
    some (last = 1, out, rest)
  else if kind = 2 then
    let (trees, rest) ← readTrees? rest
    let (out, rest) ← readTokens? trees total out rest
    some (last = 1, out, rest)
  else none

/-- The text of all blocks, and the bits behind the last one.  Every block takes a bit. -/
def readBlocks? (total : Nat) :
    (steps : Nat) → (out : ByteArray) → List Bool → Option (ByteArray × List Bool)
  | 0, _, _ => none
  | steps + 1, out, bits => do
    let (last, out, rest) ← readBlock? total out bits
    if last then some (out, rest) else readBlocks? total steps out rest

/-- **The text that a compressed stream begins with, and the whole bytes behind it.** -/
def decode? (data : ByteArray) : Option (ByteArray × ByteArray) := do
  let bits := bitsOf data
  let (out, rest) ← readBlocks? bits.length bits.length ByteArray.empty bits
  some (out, data.extract (data.size - rest.length / 8) data.size)

end ArtifactCourier.Deflate
