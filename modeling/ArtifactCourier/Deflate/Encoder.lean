/-
  ArtifactCourier.Deflate.Encoder
  ──────────────────────────────────────
  **Writing a compressed text.**

  The text is cut into stretches of tokens, and each stretch becomes a block: with fixed
  codes if it is short, with codes of its own otherwise, and stored as it is if it would
  not shrink.

  The text may come in pieces.  A place is looked at as soon as the search can look as far
  ahead as it wants to, and a block is written as soon as its stretch is full.
-/
import ArtifactCourier.Deflate.Block
import ArtifactCourier.Deflate.Lengths
import ArtifactCourier.Deflate.Matches

namespace ArtifactCourier.Deflate

/-! ## §1. Tokens. -/

def lengthSymbol (length : Nat) : Nat × BitField :=
  let (i, r) := lengthTable.getD length (0, ⟨3, 0⟩)
  (firstLengthSymbol + i, ⟨length - r.base, r.extra⟩)

def distanceSymbol (distance : Nat) : Nat × BitField :=
  let (i, r) := (rangeOf? distanceRanges distance).getD (0, ⟨1, 0⟩)
  (i, ⟨distance - r.base, r.extra⟩)

/-- The fields of a token in the codes of a block. -/
def tokenFields (words : BlockWords) : Token → List BitField
  | .byte b => [words.literals.word b.toNat]
  | .copy length distance =>
    let (lengthSymbol, lengthExtra) := lengthSymbol length
    let (distanceSymbol, distanceExtra) := distanceSymbol distance
    [words.literals.word lengthSymbol, lengthExtra,
      words.distances.word distanceSymbol, distanceExtra]

/-- The fields of the tokens of a block, and of its end. -/
def tokensFields (words : BlockWords) (tokens : List Token) : List BitField :=
  tokens.flatMap (tokenFields words) ++ [words.literals.word endOfBlock]

/-! ## §2. Codes of its own for a block. -/

/-- How often symbols occur: bytes and lengths, and distances. -/
structure Frequencies where
  literals : Array Nat
  distances : Array Nat

/-- Before any token there is only the end of the block. -/
def Frequencies.start : Frequencies :=
  ⟨(Array.replicate 286 0).setIfInBounds endOfBlock 1, Array.replicate 30 0⟩

def Frequencies.count (f : Frequencies) (t : Token) : Frequencies :=
  let ⟨literals, distances⟩ := f
  match t with
  | .byte b => ⟨literals.modify b.toNat (· + 1), distances⟩
  | .copy length distance =>
    ⟨literals.modify (lengthSymbol length).1 (· + 1),
      distances.modify (distanceSymbol distance).1 (· + 1)⟩

def frequencies (tokens : List Token) : Frequencies := tokens.foldl Frequencies.count .start

/-- A list without the zeros at its end, but with at least `least` of its entries. -/
def withoutTail (least : Nat) (ns : List Nat) : List Nat :=
  ns.take least ++ ((ns.drop least).reverse.dropWhile (· == 0)).reverse

/-- The fields of a run in the third code. -/
def runFields (words : WordTable) (run : Run) : List BitField := [words.word run.symbol, run.extra]

/-- How often each symbol of the third code occurs. -/
def runFrequencies (runs : List Run) : Array Nat :=
  runs.foldl (fun a r => a.modify r.symbol (· + 1)) (Array.replicate 19 0)

/-- The lengths of the third code as they are written. -/
def writtenLengths (lengths : List Nat) : List Nat :=
  withoutTail 4 (runOrder.map fun symbol => lengths.getD symbol 0)

/-- The description of codes by their word lengths. -/
def codeFields (literals distances : List Nat) : List BitField :=
  let runs := Run.ofLengths (literals ++ distances)
  let lengths := Lengths.ofFrequencies maxRunWordLength (runFrequencies runs)
  let words := WordTable.ofLengths maxRunWordLength lengths
  let written := writtenLengths lengths
  [⟨literals.length - minLiteralCount, 5⟩, ⟨distances.length - 1, 5⟩, ⟨written.length - 4, 4⟩]
    ++ written.map (fun n => ⟨n, 3⟩)
    ++ runs.flatMap (runFields words)

/-- The word lengths of codes made for some tokens, of bytes and lengths and of distances. -/
def ownLengths (tokens : List Token) : List Nat × List Nat :=
  let f := frequencies tokens
  (withoutTail minLiteralCount (Lengths.ofFrequencies maxWordLength f.literals),
    withoutTail 1 (Lengths.ofFrequencies maxWordLength f.distances))

/-- A block with codes of its own, from behind its kind. -/
def ownCodeFields (tokens : List Token) : List BitField :=
  let (literals, distances) := ownLengths tokens
  codeFields literals distances ++ tokensFields (.ofLengths literals distances) tokens

/-! ## §3. Blocks. -/

/-- The field that marks the last block. -/
def lastField (last : Bool) : BitField := ⟨last.toNat, 1⟩

def maxStored : Nat := 0xFFFF

/-- The writer with a stored block of the bytes from `first` to `stop`. -/
def putStored (w : BitWriter) (last : Bool) (data : ByteArray) (first stop : Nat) : BitWriter :=
  let w := (w.put (lastField last)).put ⟨0, 2⟩
  let w := w.put w.padding
  let size := stop - first
  let w := (w.put ⟨size, 16⟩).put ⟨maxStored - size, 16⟩
  { w with bytes := w.bytes ++ data.extract first stop }

/-- Stretches shorter than this use the fixed codes. -/
def fixedBelow : Nat := 48

/-- The fields of a stretch as a block with codes, from its kind on: its own codes unless it is
short, then the fixed ones. -/
def codedFields (s : Matches.Stretch) : List BitField :=
  if s.size < fixedBelow then ⟨1, 2⟩ :: tokensFields fixedWords s.tokens.toList
  else ⟨2, 2⟩ :: ownCodeFields s.tokens.toList

/-- The number of bits of some fields. -/
def bitLength (fields : List BitField) : Nat := fields.foldl (fun n f => n + f.width) 0

/-- Whether a block of `size` bytes hardly shrinks when coded behind `before` bits. -/
def isExpanded (before size bits : Nat) : Bool :=
  size > 32 && size ≤ maxStored && (before + bits) / 8 - before / 8 + 1 ≥ size

/-- The writer with a stretch as a block. -/
def putStretch (w : BitWriter) (last : Bool) (data : ByteArray) (s : Matches.Stretch) :
    BitWriter :=
  let fields := codedFields s
  let before := w.bitCount + 1
  if isExpanded before s.size (bitLength fields) then putStored w last data s.first s.stop
  else (w.put (lastField last)).putAll fields

/-! ## §4. Scanning. -/

/-- What is known at a place of the text. -/
structure Scan where
  chains : Matches.Chains
  /-- The place that is looked at next. -/
  place : Nat
  /-- The repetition at the place before, which is taken if there is no longer one here. -/
  held : Option Matches.Match
  /-- The tokens that are not written yet. -/
  stretch : Matches.Stretch
  /-- The blocks. -/
  out : BitWriter

def Scan.start : Scan := ⟨.empty, 0, none, .startingAt 0, .empty⟩

/-- A stretch that is full becomes a block. -/
def closeIfFull (out : BitWriter) (data : ByteArray) (s : Matches.Stretch) :
    Matches.Stretch × BitWriter :=
  if s.isFull then (.startingAt s.stop, putStretch out false data s) else (s, out)

/-- A look at one place. -/
def Scan.step (data : ByteArray) (s : Scan) : Scan :=
  let ⟨chains, place, held, stretch, out⟩ := s
  let chains := chains.addUpTo data place
  let d := Matches.decide chains data place held
  let (stretch, out) := closeIfFull out data (stretch.addAll d.tokens)
  ⟨chains, d.next, d.held, stretch, out⟩

/-- A look at a place is a look at a later one next. -/
theorem Matches.lt_next_decide (c : Chains) (data : ByteArray) (i : Nat) (held : Option Match) :
    i < (decide c data i held).next := by
  have chosen (m : Match) (before : List Token) : i < (m.choose before i).next := by
    rw [Match.choose]
    split
    · exact Nat.lt_add_of_pos_right (Nat.lt_of_lt_of_le Nat.one_pos (Nat.le_max_right _ _))
    · exact Nat.lt_succ_self i
  cases held with
  | none =>
    rw [decide]
    split
    · exact Nat.lt_succ_self i
    · exact chosen _ _
  | some held =>
    rw [decide]
    split
    · exact Nat.lt_add_of_pos_right (Nat.lt_of_lt_of_le Nat.one_pos (Nat.le_max_right _ _))
    · exact chosen _ _

theorem Scan.lt_place_step (data : ByteArray) (s : Scan) : s.place < (s.step data).place :=
  Matches.lt_next_decide _ _ _ _

/-- A look at all places before `stop`. -/
def Scan.run (data : ByteArray) (stop : Nat) (s : Scan) : Scan :=
  if s.place < stop then run data stop (s.step data) else s
termination_by stop - s.place
decreasing_by
  have later := s.lt_place_step data
  omega

/-! ## §5. Texts in pieces. -/

/-- A writer of a compressed text: what came in so far, and how far it was looked at. -/
structure Encoder where
  text : ByteArray
  scan : Scan

namespace Encoder

def start : Encoder := ⟨ByteArray.empty, .start⟩

/-- One piece more.  Places with less than `maxLength` bytes in front are left for later. -/
def write (e : Encoder) (piece : ByteArray) : Encoder :=
  let ⟨text, scan⟩ := e
  let text := text ++ piece
  ⟨text, scan.run text (text.size + 1 - maxLength)⟩

/-- The stream, when nothing more comes. -/
def finish (e : Encoder) : ByteArray :=
  let ⟨text, scan⟩ := e
  let scan := scan.run text text.size
  (putStretch scan.out true text scan.stretch).finish

/-- How many bytes of the stream are written so far. -/
def written (e : Encoder) : Nat := e.scan.out.bytes.size

end Encoder

/-- **The compressed form of a text.** -/
def encode (data : ByteArray) : ByteArray := (Encoder.start.write data).finish

end ArtifactCourier.Deflate
