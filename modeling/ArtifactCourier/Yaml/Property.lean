/-
  ArtifactCourier.Yaml.Property
  ──────────────────────────────────────
  **Anchors, aliases, tags and directives.**

  These stand in one line each, so reading one gives its value and what is left of the
  line; how far it reached follows from the lengths.
-/
import ArtifactCourier.Yaml.Token

namespace ArtifactCourier.Yaml.Property

/-! ## §1. Names. -/

/-- The word that stands here, and what follows it. -/
def word (cs : List Char) : List Char × List Char := (cs.takeWhile isWordChar, cs.dropWhile isWordChar)

/-- The name of an anchor or alias, read from behind its sign. -/
def anchorName? (cs : List Char) : Option (List Char × List Char) :=
  let (name, rest) := word cs
  let bounded := endsWord rest || rest.head?.any fun c => "?:,]\x7d%@\x60".toList.contains c
  if name.isEmpty || !bounded then none else some (name, rest)

/-! ## §2. Tags. -/

/-- The characters of a tag besides those of words; the last three only where no bracket or
comma can follow a tag. -/
def isTagChar (bracketed : Bool) (c : Char) : Bool :=
  isWordChar c || ";/?:@&=+$.%!~*'()".toList.contains c || (bracketed && ",[]".toList.contains c)

/-- The number of octets of the character that a leading octet begins. -/
def octetCount? (octet : Nat) : Option Nat :=
  if octet < 0x80 then some 1
  else if octet / 0x20 = 6 then some 2
  else if octet / 0x10 = 14 then some 3
  else if octet / 0x08 = 30 then some 4
  else none

/-- Reads `n` escaped octets that continue a character. -/
def continuation? : (n : Nat) → List Char → Option (List Char × List Char)
  | 0, cs => some ([], cs)
  | n + 1, '%' :: a :: b :: rest => do
    let high ← hexValue? a
    let low ← hexValue? b
    let octet := high * 16 + low
    if octet / 0x40 = 2 then
      let (octets, rest) ← continuation? n rest
      some (Char.ofNat octet :: octets, rest)
    else none
  | _ + 1, _ => none

/-- The octets of the escaped character that begins here, each as a character of its value. -/
def escapedOctets? : List Char → Option (List Char × List Char)
  | '%' :: a :: b :: rest => do
    let high ← hexValue? a
    let low ← hexValue? b
    let octet := high * 16 + low
    let n ← octetCount? octet
    let (octets, rest) ← continuation? (n - 1) rest
    some (Char.ofNat octet :: octets, rest)
  | _ => none

/-- The tag characters that stand here, with escapes resolved.  Every step takes a character,
so as many steps as there are characters suffice. -/
def tagText (bracketed : Bool) : (steps : Nat) → List Char → Option (List Char × List Char)
  | 0, cs => some ([], cs)
  | _ + 1, [] => some ([], [])
  | steps + 1, c :: rest =>
    if c = '%' then do
      let (octets, rest) ← escapedOctets? (c :: rest)
      let (more, rest) ← tagText bracketed steps rest
      some (octets ++ more, rest)
    else if isTagChar bracketed c then do
      let (more, rest) ← tagText bracketed steps rest
      some (c :: more, rest)
    else some ([], c :: rest)

/-- What a tag handle looks like: an exclamation mark, a word, and perhaps a second mark. -/
def tagHandle : List Char → Option (List Char × List Char)
  | '!' :: cs =>
    let (name, rest) := word cs
    match rest with
    | '!' :: after => some ('!' :: name ++ ['!'], after)
    | _ => some ('!' :: name, rest)
  | _ => none

/-- A tag, read from its exclamation mark: handle and suffix.  A lone mark has an empty handle
and itself for a suffix. -/
def tag? (inFlow : Bool) (cs : List Char) : Option (Token × List Char) := do
  let (token, rest) ←
    match cs with
    | '!' :: '<' :: inner => do
      let (suffix, rest) ← tagText true inner.length inner
      match rest with
      | '>' :: after => if suffix.isEmpty then none else some (Token.tag [] suffix, after)
      | _ => none
    | _ => do
      let (handle, rest) ← tagHandle cs
      if handle.length > 1 ∧ handle.getLast? = some '!' then
        let (suffix, rest) ← tagText false rest.length rest
        if suffix.isEmpty then none else some (Token.tag handle suffix, rest)
      else
        let (more, rest) ← tagText false rest.length rest
        let suffix := handle.drop 1 ++ more
        some (if suffix.isEmpty then Token.tag [] ['!'] else Token.tag ['!'] suffix, rest)
  if endsWord rest ∨ (inFlow ∧ rest.head? = some ',') then some (token, rest) else none

/-! ## §3. Directives. -/

def versionNumber? (cs : List Char) : Option (Nat × List Char) :=
  let digits := cs.takeWhile Char.isDigit
  if digits.isEmpty || digits.length > 9 then none
  else
    some (digits.foldl (fun n c => n * 10 + (c.toNat - '0'.toNat)) 0, cs.dropWhile Char.isDigit)

/-- The version that a document claims. -/
def versionDirective? (cs : List Char) : Option (Token × List Char) := do
  let (major, rest) ← versionNumber? (cs.dropWhile isGapBlank)
  match rest with
  | '.' :: after => do
    let (minor, rest) ← versionNumber? after
    some (.version major minor, rest)
  | _ => none

/-- A tag handle and what it abbreviates. -/
def tagDirective? (cs : List Char) : Option (Token × List Char) := do
  let (handle, rest) ← tagHandle (cs.dropWhile isGapBlank)
  if handle ≠ ['!'] ∧ handle.getLast? ≠ some '!' then none
  else
    match rest with
    | c :: _ =>
      if isGapBlank c then do
        let text := rest.dropWhile isGapBlank
        let (tagPrefix, rest) ← tagText true text.length text
        if tagPrefix.isEmpty || !endsWord rest then none
        else some (.tagHandle handle tagPrefix, rest)
      else none
    | [] => none

/-- A directive, read from behind its percent sign to the end of its line. -/
def directive? (cs : List Char) : Option (Token × List Char) := do
  let (name, rest) := word cs
  if name.isEmpty || !endsWord rest then none
  else
    let (token, rest) ←
      if name = "YAML".toList then versionDirective? rest
      else if name = "TAG".toList then tagDirective? rest
      else none
    let rest := rest.dropWhile isGapBlank
    let rest := if rest.head? = some '#' then rest.dropWhile (!isBreak ·) else rest
    if endsLine rest then some (token, rest) else none

end ArtifactCourier.Yaml.Property
