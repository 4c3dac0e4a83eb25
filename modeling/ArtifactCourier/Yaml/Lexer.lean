/-
  ArtifactCourier.Yaml.Lexer
  ──────────────────────────────────────
  **From characters to tokens.**

  The lexer keeps the columns of the open blocks and, for every depth of brackets, the
  place where a mapping key may have begun.  When a colon shows that it was a key, the
  key token is put in front of it after the fact.  Such a key must lie in one line and
  within 1024 characters; where the indentation leaves no other reading, a key that did
  not come to its colon is an error.
-/
import ArtifactCourier.Yaml.Block
import ArtifactCourier.Yaml.Property
import ArtifactCourier.Yaml.Quoted

namespace ArtifactCourier.Yaml

/-- Where a mapping key may have begun. -/
structure KeyStart where
  /-- Whether nothing but a key can stand there. -/
  required : Bool
  /-- How many tokens stand before it. -/
  tokenCount : Nat
  place : Place
deriving DecidableEq, Repr

/-- How far the lexer has come. -/
structure Lexer where
  rest : List Char
  place : Place
  /-- The tokens so far, the last one first. -/
  reversed : List Token
  /-- Whether a mapping key may begin here. -/
  keyAllowed : Bool
  /-- The column of the innermost open block; -1 outside all. -/
  indent : Int
  /-- The columns of the blocks around it, the innermost first. -/
  outer : List Int
  /-- The possible key of the innermost brackets, or of the block outside all. -/
  keyStart : Option KeyStart
  /-- The possible keys further out, the innermost first: one for each open bracket. -/
  outerKeys : List (Option KeyStart)

namespace Lexer

def start (cs : List Char) : Lexer where
  rest := cs
  place := .start
  reversed := []
  keyAllowed := true
  indent := -1
  outer := []
  keyStart := none
  outerKeys := []

def inFlow (l : Lexer) : Bool := !l.outerKeys.isEmpty

def emit (l : Lexer) (t : Token) : Lexer := { l with reversed := t :: l.reversed }

/-- One more token in front of those after the first `count`. -/
def emitAt (l : Lexer) (count : Nat) (t : Token) : Lexer :=
  let after := l.reversed.length - count
  { l with reversed := l.reversed.take after ++ t :: l.reversed.drop after }

def advance (l : Lexer) (n : Nat) : Lexer :=
  { l with rest := l.rest.drop n, place := l.place.advance n }

/-- Past the part of the line that `rest` follows. -/
def advanceTo (l : Lexer) (rest : List Char) : Lexer :=
  { l with rest := rest, place := l.place.advance (l.rest.length - rest.length) }

/-! ## §1. White space between tokens. -/

/-- The place and text behind blanks, comments and line breaks, and whether a key may begin
there: outside brackets it may behind a line break.  Where it may, a tab is no blank.  A byte order
mark that begins a line is one. -/
def skipGap (inFlow : Bool) (inComment keyAllowed : Bool) (place : Place) :
    List Char → Bool × Place × List Char
  | [] => (keyAllowed, place, [])
  | c :: rest =>
    if isBreak c then
      if isHalfBreak c rest then skipGap inFlow inComment keyAllowed place.hold rest
      else skipGap inFlow false (keyAllowed || !inFlow) (place.newLine 1) rest
    else if inComment then skipGap inFlow true keyAllowed (place.advance 1) rest
    else if c = byteOrderMark ∧ place.column = 0 then
      skipGap inFlow false keyAllowed (place.advance 1) rest
    else if c = ' ' ∨ (c = '\t' ∧ (inFlow ∨ keyAllowed = false)) then
      skipGap inFlow false keyAllowed (place.advance 1) rest
    else if c = '#' then skipGap inFlow true keyAllowed (place.advance 1) rest
    else (keyAllowed, place, c :: rest)

def skipToToken (l : Lexer) : Lexer :=
  let (keyAllowed, place, rest) := skipGap l.inFlow false l.keyAllowed l.place l.rest
  { l with keyAllowed := keyAllowed, place := place, rest := rest }

/-! ## §2. Possible keys. -/

/-- Whether a key that began at `k` can no longer end at `place`. -/
def isStale (place : Place) (k : KeyStart) : Bool :=
  k.place.line < place.line || k.place.index + 1024 < place.index

/-- A possible key as far as it still is one; a required one may not lapse. -/
def refresh (place : Place) (k : Option KeyStart) : Option (Option KeyStart) :=
  match k with
  | none => some none
  | some k => if isStale place k then (if k.required then none else some none) else some (some k)

/-- Forgets the possible keys that have lapsed. -/
def dropStale (l : Lexer) : Option Lexer := do
  let keyStart ← refresh l.place l.keyStart
  let outerKeys ← l.outerKeys.mapM (refresh l.place)
  some { l with keyStart := keyStart, outerKeys := outerKeys }

/-- Forgets the possible key, which may not have been a required one. -/
def forgetKey (l : Lexer) : Option Lexer :=
  match l.keyStart with
  | some k => if k.required then none else some { l with keyStart := none }
  | none => some l

/-- Notes that a key may begin here. -/
def noteKey (l : Lexer) : Option Lexer :=
  if l.keyAllowed then do
    let required := !l.inFlow && l.indent == (l.place.column : Int)
    let l ← l.forgetKey
    some { l with keyStart := some ⟨required, l.reversed.length, l.place⟩ }
  else some l

/-! ## §3. Blocks. -/

/-- Closes the blocks that lie further in than `column`. -/
def closeBlocks (column : Int) (indent : Int) (reversed : List Token) :
    (outer : List Int) → Int × List Int × List Token
  | [] => (indent, [], reversed)
  | i :: outer =>
    if column < indent then closeBlocks column i (.blockEnd :: reversed) outer
    else (indent, i :: outer, reversed)

/-- Closes the blocks that end before `column`; brackets keep all blocks open. -/
def unindent (l : Lexer) (column : Int) : Lexer :=
  if l.inFlow then l
  else
    let (indent, outer, reversed) := closeBlocks column l.indent l.reversed l.outer
    { l with indent := indent, outer := outer, reversed := reversed }

/-- Opens a block at `column` in front of the tokens after the first `count`, unless one is
open there already. -/
def openBlock (l : Lexer) (column : Nat) (count : Nat) (t : Token) : Lexer :=
  if !l.inFlow ∧ l.indent < column then
    { l.emitAt count t with indent := column, outer := l.indent :: l.outer }
  else l

def openBlockHere (l : Lexer) (t : Token) : Lexer :=
  l.openBlock l.place.column l.reversed.length t

/-! ## §4. Tokens. -/

/-- Leaves all blocks, as directives and document indicators do. -/
def leaveBlocks (l : Lexer) : Option Lexer := do
  let l ← (l.unindent (-1)).forgetKey
  some { l with keyAllowed := false }

def endOfText (l : Lexer) : Option Lexer := do
  let l ← l.leaveBlocks
  some (l.emit .streamEnd)

def directive (l : Lexer) : Option Lexer := do
  let l ← l.leaveBlocks
  let (token, rest) ← Property.directive? (l.rest.drop 1)
  some ((l.advanceTo rest).emit token)

def documentMark (l : Lexer) (t : Token) : Option Lexer := do
  let l ← l.leaveBlocks
  some ((l.advance 3).emit t)

def openFlow (l : Lexer) (t : Token) : Option Lexer := do
  let l ← l.noteKey
  some (({ l with
    outerKeys := l.keyStart :: l.outerKeys, keyStart := none, keyAllowed := true
  }.advance 1).emit t)

def closeFlow (l : Lexer) (t : Token) : Option Lexer := do
  let l ← l.forgetKey
  let l :=
    match l.outerKeys with
    | [] => l
    | k :: outer => { l with keyStart := k, outerKeys := outer }
  some (({ l with keyAllowed := false }.advance 1).emit t)

def flowEntry (l : Lexer) : Option Lexer := do
  let l ← l.forgetKey
  some (({ l with keyAllowed := true }.advance 1).emit .flowEntry)

/-- The dash of a list item.  Between brackets it has no place, which the grammar reports. -/
def blockEntry (l : Lexer) : Option Lexer := do
  if !l.inFlow && !l.keyAllowed then none
  else
    let l ← (l.openBlockHere .blockSequenceStart).forgetKey
    some (({ l with keyAllowed := true }.advance 1).emit .blockEntry)

def explicitKey (l : Lexer) : Option Lexer := do
  if !l.inFlow && !l.keyAllowed then none
  else
    let l ← (l.openBlockHere .blockMappingStart).forgetKey
    some (({ l with keyAllowed := !l.inFlow }.advance 1).emit .key)

/-- The colon before a value: it makes a key of what may have been one. -/
def valueMark (l : Lexer) : Option Lexer :=
  match l.keyStart with
  | some k =>
    let l := (l.emitAt k.tokenCount .key).openBlock k.place.column k.tokenCount .blockMappingStart
    some (({ l with keyStart := none, keyAllowed := false }.advance 1).emit .value)
  | none =>
    if !l.inFlow && !l.keyAllowed then none
    else
      let l := l.openBlockHere .blockMappingStart
      some (({ l with keyAllowed := !l.inFlow }.advance 1).emit .value)

/-- An anchor or an alias, as `token` says. -/
def named (l : Lexer) (token : List Char → Token) : Option Lexer := do
  let l ← l.noteKey
  let (name, rest) ← Property.anchorName? (l.rest.drop 1)
  some (({ l with keyAllowed := false }.advanceTo rest).emit (token name))

def tag (l : Lexer) : Option Lexer := do
  let l ← l.noteKey
  let (token, rest) ← Property.tag? l.inFlow l.rest
  some (({ l with keyAllowed := false }.advanceTo rest).emit token)

def scalar (l : Lexer) (style : Style) (keyAllowed : Bool) (r : ScalarRead) : Lexer :=
  { l with rest := r.rest, place := r.place, keyAllowed := keyAllowed }.emit (.scalar style r.text)

def blockScalar (l : Lexer) (style : Style) : Option Lexer := do
  let l ← l.forgetKey
  let r ← Block.read (style == .literal) l.indent (l.place.advance 1) (l.rest.drop 1)
  some (l.scalar style true r)

def quotedScalar (l : Lexer) (style : Style) : Option Lexer := do
  let l ← l.noteKey
  let r ← Quoted.readFrom (style == .doubleQuoted) (l.place.advance 1) .closed [] (l.rest.drop 1)
  some (l.scalar style false r)

def plainScalar (l : Lexer) : Option Lexer := do
  let l ← l.noteKey
  let r ← Plain.readFrom ⟨l.inFlow, l.indent + 1⟩ l.place .closed [] l.rest
  some (l.scalar .plain r.endsInBreak r)

/-- Whether a plain scalar can begin with `c`, with `rest` behind it. -/
def startsPlain (inFlow : Bool) (c : Char) (rest : List Char) : Bool :=
  !(isIndicator c || isGapBlank c) || (c == '-' && !(rest.head?.any isGapBlank))
    || (!inFlow && (c == '?' || c == ':') && !endsWord rest)

/-- The token that begins here. -/
def token (l : Lexer) (c : Char) (rest : List Char) : Option Lexer :=
  if l.place.column = 0 ∧ c = '%' then l.directive
  else if l.place.column = 0 ∧ isDocumentMark '-' (c :: rest) then l.documentMark .documentStart
  else if l.place.column = 0 ∧ isDocumentMark '.' (c :: rest) then l.documentMark .documentEnd
  else if c = '[' then l.openFlow .flowSequenceStart
  else if c = '\x7b' then l.openFlow .flowMappingStart
  else if c = ']' then l.closeFlow .flowSequenceEnd
  else if c = '\x7d' then l.closeFlow .flowMappingEnd
  else if c = ',' then l.flowEntry
  else if c = '-' ∧ endsWord rest then l.blockEntry
  else if c = '?' ∧ (l.inFlow ∨ endsWord rest) then l.explicitKey
  else if c = ':' ∧ (l.inFlow ∨ endsWord rest) then l.valueMark
  else if c = '*' then l.named .alias
  else if c = '&' then l.named .anchor
  else if c = '!' then l.tag
  else if c = '|' ∧ l.inFlow = false then l.blockScalar .literal
  else if c = '>' ∧ l.inFlow = false then l.blockScalar .folded
  else if c = '\'' then l.quotedScalar .singleQuoted
  else if c = '"' then l.quotedScalar .doubleQuoted
  else if startsPlain l.inFlow c rest then l.plainScalar
  else none

/-- The lexer with one more token, and whether the text has ended. -/
def step (l : Lexer) : Option (Bool × Lexer) := do
  let l ← l.skipToToken.dropStale
  let l := l.unindent l.place.column
  match l.rest with
  | [] => (l.endOfText).map (true, ·)
  | c :: rest => (l.token c rest).map (false, ·)

/-- Reads tokens to the end of the text.  Every token but the last takes a character. -/
def run : (steps : Nat) → Lexer → Option (List Token)
  | 0, _ => none
  | steps + 1, l => do
    let (done, l) ← l.step
    if done then some l.reversed.reverse else run steps l

end Lexer

/-- **The tokens of a document text**, if it consists of readable characters and well-formed
tokens. -/
def tokens? (cs : List Char) : Option (List Token) :=
  if cs.all isReadable then Lexer.run (cs.length + 1) (.start cs) else none

end ArtifactCourier.Yaml
