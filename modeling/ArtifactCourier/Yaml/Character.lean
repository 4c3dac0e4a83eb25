/-
  ArtifactCourier.Yaml.Character
  ──────────────────────────────────────
  **The characters of YAML 1.1.**

  Which characters may stand in a document, which of them end a line, and which may be
  written without an escape.  A carriage return with a line feed behind it is one line
  break; every break is read as a line feed, except the two Unicode separators, which
  keep what they are.
-/

namespace ArtifactCourier.Yaml

/-! ## §1. Classes. -/

/-- The characters a document may hold. -/
def isReadable (c : Char) : Bool :=
  c.val == 0x09 || c.val == 0x0A || c.val == 0x0D || (0x20 ≤ c.val && c.val ≤ 0x7E)
    || c.val == 0x85 || (0xA0 ≤ c.val && c.val ≤ 0xD7FF) || (0xE000 ≤ c.val && c.val ≤ 0xFFFD)
    || 0x10000 ≤ c.val

/-- The characters that end a line. -/
def isBreak (c : Char) : Bool :=
  c.val == 0x0A || c.val == 0x0D || c.val == 0x85 || c.val == 0x2028 || c.val == 0x2029

def isGapBlank (c : Char) : Bool := c == ' ' || c == '\t'

/-- Whether the line or the word ends here: a blank, a break or nothing more. -/
def endsWord : List Char → Bool
  | [] => true
  | c :: _ => isGapBlank c || isBreak c

def endsLine : List Char → Bool
  | [] => true
  | c :: _ => isBreak c

/-- The characters of directive names, anchors and tag handles. -/
def isWordChar (c : Char) : Bool :=
  ('0' ≤ c && c ≤ '9') || ('A' ≤ c && c ≤ 'Z') || ('a' ≤ c && c ≤ 'z') || c == '_' || c == '-'

def hexValue? (c : Char) : Option Nat :=
  if '0' ≤ c ∧ c ≤ '9' then some (c.toNat - '0'.toNat)
  else if 'A' ≤ c ∧ c ≤ 'F' then some (c.toNat - 'A'.toNat + 10)
  else if 'a' ≤ c ∧ c ≤ 'f' then some (c.toNat - 'a'.toNat + 10)
  else none

/-- The mark that may stand at the front of a text to show its byte order. -/
def byteOrderMark : Char := '\uFEFF'

/-- The characters that can be written as they are.  The tab is not among them, nor is the
byte order mark. -/
def isPrintable (c : Char) : Bool :=
  c.val == 0x0A || (0x20 ≤ c.val && c.val ≤ 0x7E) || (0xA0 ≤ c.val && c.val ≤ 0xD7FF)
    || (0xE000 ≤ c.val && c.val ≤ 0xFFFD && c != byteOrderMark) || 0x10000 ≤ c.val

/-- The characters that have a meaning of their own where a node begins. -/
def isIndicator (c : Char) : Bool :=
  "-?:,[]\x7b\x7d#&*!|>'\"%@\x60".toList.contains c

/-! ## §2. Places and line breaks. -/

/-- A place in a text, counted in characters. -/
structure Place where
  index : Nat
  line : Nat
  column : Nat
deriving DecidableEq, Repr, Inhabited

namespace Place

def start : Place := ⟨0, 0, 0⟩

/-- The place `n` characters further in the line. -/
def advance (p : Place) (n : Nat) : Place := ⟨p.index + n, p.line, p.column + n⟩

/-- The place behind a line break of `n` characters. -/
def newLine (p : Place) (n : Nat) : Place := ⟨p.index + n, p.line + 1, 0⟩

/-- The place behind a carriage return that belongs to the line feed after it: the line goes on
until that line feed. -/
def hold (p : Place) : Place := { p with index := p.index + 1 }

end Place

def normalBreak (c : Char) : Char :=
  if c.val = 0x2028 ∨ c.val = 0x2029 then c else '\n'

/-- Whether `c`, with `rest` behind it, is the first half of a line break of two characters. -/
def isHalfBreak (c : Char) (rest : List Char) : Bool := c == '\r' && rest.head? == some '\n'

/-- The number of characters of the line break that `c` begins, with `rest` behind it. -/
def breakLength (c : Char) (rest : List Char) : Nat :=
  if isHalfBreak c rest then 2 else 1

/-- Whether the three characters of a document indicator stand here, as a word. -/
def isDocumentMark (c : Char) (cs : List Char) : Bool :=
  cs.take 3 == [c, c, c] && endsWord (cs.drop 3)

/-- Whether either document indicator stands here. -/
def isDocumentIndicator (cs : List Char) : Bool :=
  isDocumentMark '-' cs || isDocumentMark '.' cs

end ArtifactCourier.Yaml
