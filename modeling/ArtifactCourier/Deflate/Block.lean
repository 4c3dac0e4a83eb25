/-
  ArtifactCourier.Deflate.Block
  ──────────────────────────────────────
  **The codes of a block.**

  A block writes its tokens in two codes, one for bytes and lengths and one for
  distances.  Short blocks use fixed codes that need no description; other blocks
  describe theirs first, by the lengths of the words, which are themselves run-length
  coded and then written in a third code.
-/
import ArtifactCourier.Deflate.Huffman
import ArtifactCourier.Deflate.Token

namespace ArtifactCourier.Deflate

/-- The words of the two codes of a block, for its writer. -/
structure BlockWords where
  /-- Bytes, the end of the block, and ranges of lengths. -/
  literals : WordTable
  /-- Ranges of distances. -/
  distances : WordTable

/-- The trees of the two codes of a block, for its reader. -/
structure BlockTrees where
  literals : CodeTree
  distances : CodeTree

/-- The greatest length of a word in the codes of a block. -/
def maxWordLength : Nat := 15

/-- The words of the given lengths. -/
def BlockWords.ofLengths (literals distances : List Nat) : BlockWords :=
  ⟨.ofLengths maxWordLength literals, .ofLengths maxWordLength distances⟩

/-- The trees of the given word lengths. -/
def BlockTrees.ofLengths? (literals distances : List Nat) : Option BlockTrees := do
  let l ← CodeTree.ofLengths? maxWordLength literals
  let d ← CodeTree.ofLengths? maxWordLength distances
  some ⟨l, d⟩

/-! ## §1. The fixed codes. -/

/-- The word lengths of the fixed code for bytes and lengths. -/
def fixedLiteralLengths : List Nat :=
  List.replicate 144 8 ++ List.replicate 112 9 ++ List.replicate 24 7 ++ List.replicate 8 8

/-- The word lengths of the fixed code for distances. -/
def fixedDistanceLengths : List Nat := List.replicate 32 5

def fixedWords : BlockWords := .ofLengths fixedLiteralLengths fixedDistanceLengths

def fixedTrees? : Option BlockTrees :=
  BlockTrees.ofLengths? fixedLiteralLengths fixedDistanceLengths

/-! ## §2. Runs of word lengths. -/

/-- A step in a list of word lengths. -/
inductive Run where
  /-- One length. -/
  | one (length : Nat)
  /-- The length before, three to six times more. -/
  | again (times : Nat)
  /-- Three to ten zeros. -/
  | zeros (times : Nat)
  /-- Eleven to 138 zeros. -/
  | manyZeros (times : Nat)
deriving DecidableEq, Repr

namespace Run

def symbol : Run → Nat
  | one length => length
  | again _ => 16
  | zeros _ => 17
  | manyZeros _ => 18

def extra : Run → BitField
  | one _ => ⟨0, 0⟩
  | again times => ⟨times - 3, 2⟩
  | zeros times => ⟨times - 3, 3⟩
  | manyZeros times => ⟨times - 11, 7⟩

/-- The lengths, the last one first, with a run more. -/
def append? (reversed : List Nat) : Run → Option (List Nat)
  | one length => some (length :: reversed)
  | again times => reversed.head?.map fun n => List.replicate times n ++ reversed
  | zeros times => some (List.replicate times 0 ++ reversed)
  | manyZeros times => some (List.replicate times 0 ++ reversed)

/-- The lengths that runs describe. -/
def expand? (runs : List Run) : Option (List Nat) :=
  (runs.foldlM append? []).map List.reverse

/-- Zeros as one run, or singly if they are few. -/
def ofZeros (n : Nat) : List Run :=
  if n < 3 then List.replicate n (one 0) else if n ≤ 10 then [zeros n] else [manyZeros n]

/-- Repetitions of the length before as one run, or singly if they are few. -/
def ofRepeats (length n : Nat) : List Run :=
  if n < 3 then List.replicate n (one length) else [again n]

/-- The runs of a list of lengths, from the left: `zeroCount` zeros or `repeats` repetitions of
`last` have been seen and not written yet. -/
def ofLengthsFrom (last : Option Nat) (zeroCount repeats : Nat) : List Nat → List Run
  | [] => ofZeros zeroCount ++ ofRepeats (last.getD 0) repeats
  | 0 :: rest =>
    if zeroCount + 1 = 138 then
      ofRepeats (last.getD 0) repeats ++ ofZeros (zeroCount + 1) ++ ofLengthsFrom (some 0) 0 0 rest
    else ofRepeats (last.getD 0) repeats ++ ofLengthsFrom (some 0) (zeroCount + 1) 0 rest
  | n :: rest =>
    if last = some n then
      if repeats + 1 = 6 then
        ofZeros zeroCount ++ ofRepeats n 6 ++ ofLengthsFrom (some n) 0 0 rest
      else ofZeros zeroCount ++ ofLengthsFrom (some n) 0 (repeats + 1) rest
    else
      ofZeros zeroCount ++ ofRepeats (last.getD 0) repeats
        ++ one n :: ofLengthsFrom (some n) 0 0 rest

/-- The runs of a list of lengths. -/
def ofLengths (lengths : List Nat) : List Run := ofLengthsFrom none 0 0 lengths

end Run

/-! ## §3. The third code. -/

/-- The greatest length of a word in the third code. -/
def maxRunWordLength : Nat := 7

/-- The order in which the word lengths of the third code are written. -/
def runOrder : List Nat := [16, 17, 18, 0, 8, 7, 9, 6, 10, 5, 11, 4, 12, 3, 13, 2, 14, 1, 15]

/-- The least numbers of word lengths that a description has. -/
def minLiteralCount : Nat := 257

end ArtifactCourier.Deflate
