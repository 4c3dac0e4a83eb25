/-
  ArtifactCourier.Yaml.Block
  ──────────────────────────────────────
  **Block scalars: text by lines, set off by indentation.**

  A header says whether line breaks are kept (literal) or folded, how deep the text is
  indented, and what becomes of the breaks at its end.  If the header is silent about
  the depth, the first line that is not empty shows it.
-/
import ArtifactCourier.Yaml.Plain

namespace ArtifactCourier.Yaml.Block

/-! ## §1. The header. -/

/-- What becomes of the line breaks at the end. -/
inductive Chomping where
  /-- All are dropped. -/
  | strip
  /-- The one that ends the last line stays. -/
  | clip
  /-- All stay. -/
  | keep
deriving DecidableEq

/-- What the header says. -/
structure Header where
  chomping : Chomping
  /-- The depth relative to the surrounding block, if it is given. -/
  increment : Option Nat

/-- The chomping that a sign asks for. -/
def chomping? : Char → Option Chomping
  | '+' => some .keep
  | '-' => some .strip
  | _ => none

/-- The depth that a digit asks for: `none` if it is no digit, and an inner `none` for zero,
which is no depth. -/
def increment? (c : Char) : Option (Option Nat) :=
  if '1' ≤ c ∧ c ≤ '9' then some (some (c.toNat - '0'.toNat))
  else if c = '0' then some none
  else none

/-- Reads sign and digit in either order, and gives what follows. -/
def readHeader : List Char → Option (Header × List Char)
  | [] => some (⟨.clip, none⟩, [])
  | c :: rest =>
    match chomping? c with
    | some chomping =>
      match rest with
      | d :: after =>
        match increment? d with
        | some (some n) => some (⟨chomping, some n⟩, after)
        | some none => none
        | none => some (⟨chomping, none⟩, d :: after)
      | [] => some (⟨chomping, none⟩, [])
    | none =>
      match increment? c with
      | some (some n) =>
        match rest with
        | d :: after =>
          match chomping? d with
          | some chomping => some (⟨chomping, some n⟩, after)
          | none => some (⟨.clip, some n⟩, d :: after)
        | [] => some (⟨.clip, some n⟩, [])
      | some none => none
      | none => some (⟨.clip, none⟩, c :: rest)

/-! ## §2. Lines. -/

/-- What lies in front of a line of text. -/
structure Leading where
  /-- The breaks of the empty lines, the last first. -/
  reversedBreaks : List Char
  /-- The widest indentation seen, in front of the line or of an empty one. -/
  widest : Nat
  place : Place
  rest : List Char

/-- Reads empty lines and indentation.  Without a known `depth` all spaces are indentation;
with one, only those before that column.  A tab may not stand among them. -/
def readLeading (depth : Option Nat) (place : Place) (breaks : List Char) (widest : Nat) :
    List Char → Option Leading
  | [] => some ⟨breaks, max widest place.column, place, []⟩
  | c :: rest =>
    let inside := depth.all (place.column < ·)
    if inside ∧ c = ' ' then readLeading depth (place.advance 1) breaks widest rest
    else if inside ∧ c = '\t' then none
    else if isBreak c then
      if isHalfBreak c rest then readLeading depth place.hold breaks widest rest
      else
        readLeading depth (place.newLine 1) (normalBreak c :: breaks) (max widest place.column) rest
    else some ⟨breaks, max widest place.column, place, c :: rest⟩

/-- The line break that begins here, as it is read and with the place behind it; nothing at
the end of the text. -/
def readBreak (place : Place) : List Char → Option Char × Place × List Char
  | [] => (none, place, [])
  | c :: rest =>
    if isBreak c then
      let n := breakLength c rest
      (some (normalBreak c), place.newLine n, rest.drop (n - 1))
    else (none, place, c :: rest)

/-- How a line is joined to the text before it: the break that ended the line before, and the
empty lines between, the last character first.  Folding reads a single break between two
lines that do not start with a blank as a space. -/
def joined (literal : Bool) (lineBreak : Option Char) (breaks : List Char)
    (blankBefore blankHere : Bool) : List Char :=
  if literal = false ∧ lineBreak = some '\n' ∧ blankBefore = false ∧ blankHere = false then
    if breaks.isEmpty then [' '] else breaks
  else breaks ++ lineBreak.toList

/-- The text of the scalar with its end treated as the header says; all the last first. -/
def chomped (chomping : Chomping) (acc : List Char) (lineBreak : Option Char)
    (breaks : List Char) : List Char :=
  match chomping with
  | .strip => acc
  | .clip => lineBreak.toList ++ acc
  | .keep => breaks ++ lineBreak.toList ++ acc

/-- Reads line after line as long as they are indented to `depth`.  Every line takes at least
one character, so as many steps as there are characters suffice. -/
def readLines (literal : Bool) (chomping : Chomping) (depth : Nat) :
    (steps : Nat) → (acc : List Char) → (lineBreak : Option Char) → (blankBefore : Bool) →
      Leading → Option ScalarRead
  | 0, acc, lineBreak, _, lead =>
    some ⟨(chomped chomping acc lineBreak lead.reversedBreaks).reverse, lead.place, lead.rest, false⟩
  | steps + 1, acc, lineBreak, blankBefore, lead =>
    match lead.rest with
    | [] =>
      some ⟨(chomped chomping acc lineBreak lead.reversedBreaks).reverse, lead.place, [], false⟩
    | c :: rest =>
      if lead.place.column = depth then do
        let blankHere := isGapBlank c
        let line := (c :: rest).takeWhile (!isBreak ·)
        let after := (c :: rest).dropWhile (!isBreak ·)
        let acc := joined literal lineBreak lead.reversedBreaks blankBefore blankHere ++ acc
        let (lineBreak, place, after) := readBreak (lead.place.advance line.length) after
        let next ← readLeading (some depth) place [] 0 after
        readLines literal chomping depth steps (line.reverse ++ acc) lineBreak blankHere next
      else
        some ⟨(chomped chomping acc lineBreak lead.reversedBreaks).reverse, lead.place,
          c :: rest, false⟩

/-! ## §3. The scalar. -/

/-- Reads a block scalar from behind its indicator; `indent` is the column of the block
around it, or -1. -/
def read (literal : Bool) (indent : Int) (place : Place) (cs : List Char) : Option ScalarRead := do
  let (header, rest) ← readHeader cs
  let rest := rest.dropWhile isGapBlank
  let rest := if rest.head? = some '#' then rest.dropWhile (!isBreak ·) else rest
  if endsLine rest then
    let (_, place, rest) := readBreak (place.advance (cs.length - rest.length)) rest
    let given := header.increment.map fun n => (max indent 0).toNat + n
    let lead ← readLeading given place [] 0 rest
    let depth := given.getD (max lead.widest (max (indent + 1) 1).toNat)
    readLines literal header.chomping depth lead.rest.length [] none false lead
  else none

end ArtifactCourier.Yaml.Block
