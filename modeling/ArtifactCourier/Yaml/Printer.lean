/-
  ArtifactCourier.Yaml.Printer
  ──────────────────────────────────────
  **Writing a mapping of texts and lists of texts.**

  A text is written plain if it can be; with single quotes if it would be taken for
  something else or its first or last character forbids it; with double quotes if it has
  characters that must be escaped; and as a literal block if it has line feeds.  `Survey`
  collects what a text allows.
-/
import ArtifactCourier.Yaml.Character
import ArtifactCourier.Yaml.Resolution
import ArtifactCourier.Yaml.Token

namespace ArtifactCourier.Yaml

/-! ## §1. What a text allows. -/

namespace Survey

/-- A blank, a break, or nothing more: where a word ends for the printer as well. -/
abbrev followedByGap (cs : List Char) : Bool := endsWord cs

/-- Whether the first character has a meaning where a block node begins. -/
def leadsWithIndicator : List Char → Bool
  | [] => false
  | c :: rest =>
    "#,[]\x7b\x7d&*!|>'\"%@\x60".toList.contains c
      || ("?:-".toList.contains c && followedByGap rest)

/-- Whether a later character is a colon that ends a word or starts a comment; `afterGap` says
whether a blank or break stands before the text. -/
def hasInnerIndicator (afterGap : Bool) : List Char → Bool
  | [] => false
  | c :: rest =>
    (c == ':' && followedByGap rest) || (c == '#' && afterGap)
      || hasInnerIndicator (isGapBlank c || isBreak c) rest

/-- Whether the text begins like a document indicator. -/
def leadsWithMark (cs : List Char) : Bool :=
  cs.take 3 == ['-', '-', '-'] || cs.take 3 == ['.', '.', '.']

/-- Whether a plain scalar of this text would be read as part of the structure. -/
def hasIndicators (cs : List Char) : Bool :=
  leadsWithMark cs || leadsWithIndicator cs ||
    match cs with
    | [] => false
    | c :: rest => hasInnerIndicator (isGapBlank c || isBreak c) rest

def hasSpaceBreak : List Char → Bool
  | [] => false
  | c :: rest => (c == ' ' && rest.head?.any isBreak) || hasSpaceBreak rest

def hasBreakSpace : List Char → Bool
  | [] => false
  | c :: rest => (isBreak c && rest.head? == some ' ') || hasBreakSpace rest

/-- Whether all characters can be written as they are. -/
def isClean (cs : List Char) : Bool := cs.all isPrintable

def isEdgeGap (c : Char) : Bool := c == ' ' || isBreak c

/-- Whether the text can be a plain scalar outside brackets. -/
def allowsPlain (cs : List Char) : Bool :=
  isClean cs && !cs.any isBreak && !cs.head?.any isEdgeGap && !cs.getLast?.any isEdgeGap
    && !hasIndicators cs

/-- Whether the text can stand between single quotes. -/
def allowsSingleQuotes (cs : List Char) : Bool :=
  isClean cs && !hasSpaceBreak cs && !hasBreakSpace cs

/-- Whether the text can be a literal block. -/
def allowsLiteral (cs : List Char) : Bool :=
  !cs.isEmpty && isClean cs && !hasSpaceBreak cs && cs.getLast? != some ' '

end Survey

def Style.ofText (cs : List Char) : Style :=
  if cs.contains '\n' then
    if Survey.allowsLiteral cs then .literal else .doubleQuoted
  else if !Resolution.needsQuotes cs && Survey.allowsPlain cs then .plain
  else if Survey.allowsSingleQuotes cs then .singleQuoted
  else .doubleQuoted

/-! ## §2. Texts. -/

namespace Printer

def depth : Nat := 2

/-- The spaces in front of a line that belongs to an entry. -/
def indentation : List Char := List.replicate depth ' '

/-- The text with the indentation put in front of each character that begins a line. -/
def indented (atLineStart : Bool) : List Char → List Char
  | [] => []
  | c :: rest =>
    if isBreak c then c :: indented true rest
    else (if atLineStart then indentation else []) ++ c :: indented false rest

/-- The text between single quotes: quotes are written twice, and lines are indented, the
closing quote's too. -/
def singleQuoted (cs : List Char) : List Char :=
  let rec body (afterBreak : Bool) : List Char → List Char
    | [] => if afterBreak then indentation else []
    | c :: rest =>
      if isBreak c then c :: body true rest
      else
        (if afterBreak then indentation else [])
          ++ (if c = '\'' then ['\'', '\''] else [c]) ++ body false rest
  '\'' :: body false cs ++ ['\'']

def hexDigit (n : Nat) : Char :=
  if n < 10 then Char.ofNat ('0'.toNat + n) else Char.ofNat ('A'.toNat + (n - 10))

/-- The last `width` hexadecimal digits of a number. -/
def hexDigits : (width : Nat) → Nat → List Char
  | 0, _ => []
  | width + 1, n => hexDigits width (n / 16) ++ [hexDigit (n % 16)]

/-- The characters with an escape of one letter, which is also how they are read. -/
def escapeLetter? (c : Char) : Option Char :=
  if c.val = 0x00 then some '0'
  else if c.val = 0x07 then some 'a'
  else if c.val = 0x08 then some 'b'
  else if c.val = 0x09 then some 't'
  else if c.val = 0x0A then some 'n'
  else if c.val = 0x0B then some 'v'
  else if c.val = 0x0C then some 'f'
  else if c.val = 0x0D then some 'r'
  else if c.val = 0x1B then some 'e'
  else if c.val = 0x22 then some '"'
  else if c.val = 0x5C then some '\\'
  else if c.val = 0x85 then some 'N'
  else if c.val = 0xA0 then some '_'
  else if c.val = 0x2028 then some 'L'
  else if c.val = 0x2029 then some 'P'
  else none

def escape (c : Char) : List Char :=
  match escapeLetter? c with
  | some letter => ['\\', letter]
  | none =>
    if c.val ≤ 0xFF then '\\' :: 'x' :: hexDigits 2 c.toNat
    else if c.val ≤ 0xFFFF then '\\' :: 'u' :: hexDigits 4 c.toNat
    else '\\' :: 'U' :: hexDigits 8 c.toNat

/-- Whether a character is escaped between double quotes. -/
def isEscaped (c : Char) : Bool := !isPrintable c || isBreak c || c == '"' || c == '\\'

def doubleQuoted (cs : List Char) : List Char :=
  '"' :: cs.flatMap (fun c => if isEscaped c then escape c else [c]) ++ ['"']

/-- What the header of a literal block says: the depth if the text itself would hide it, and
what becomes of the breaks at the end. -/
def literalHints (cs : List Char) : List Char :=
  (if cs.head?.any Survey.isEdgeGap then Nat.toDigits 10 depth else [])
    ++ match cs.reverse with
      | [] => ['-']
      | [c] => if isBreak c then ['+'] else ['-']
      | c :: d :: _ => if !isBreak c then ['-'] else if isBreak d then ['+'] else []

def literal (cs : List Char) : List Char := '|' :: literalHints cs ++ '\n' :: indented true cs

/-- A text as it is written behind a key or a dash. -/
def scalar (s : String) : List Char :=
  match Style.ofText s.toList with
  | .plain => s.toList
  | .singleQuoted => singleQuoted s.toList
  | .literal => literal s.toList
  | _ => doubleQuoted s.toList

/-- A piece of the document with a line feed behind it, unless it ends a line already. -/
def closeLine (cs : List Char) : List Char :=
  if cs.getLast?.any isBreak then cs else cs ++ ['\n']

end Printer

/-! ## §3. Mappings. -/

/-- A value of the mappings that are written here. -/
inductive Value where
  /-- Nothing. -/
  | null
  | text (s : String)
  | list (items : List String)
deriving DecidableEq, Repr

namespace Printer

def entry (key : String) : Value → List Char
  | .null => key.toList ++ ": null\n".toList
  | .text s => closeLine (key.toList ++ ':' :: ' ' :: scalar s)
  | .list [] => key.toList ++ ": []\n".toList
  | .list items =>
    key.toList ++ ':' :: '\n' :: items.flatMap fun s => closeLine ('-' :: ' ' :: scalar s)

/-- **The text of a mapping.** -/
def document (entries : List (String × Value)) : String :=
  String.ofList (entries.flatMap fun (key, value) => entry key value)

end Printer
end ArtifactCourier.Yaml
