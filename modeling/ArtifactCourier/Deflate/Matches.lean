/-
  ArtifactCourier.Deflate.Matches
  ──────────────────────────────────────
  **Finding repetitions.**

  Places are chained by the three bytes they start with, so that earlier places with the
  same beginning are found from the nearest on.  A repetition is not taken at once: if
  the next place has a longer one, the byte before it is written by itself.

  Nothing is read that lies `maxLength` bytes or more behind the place that is looked at, so
  that the search can go on while the text is still coming in.
-/
import ArtifactCourier.Deflate.Token

namespace ArtifactCourier.Deflate.Matches

/-! ## §1. Chains. -/

/-- The number of chains, and of places that are remembered. -/
def window : Nat := 32768

/-- Chains of places; a place is kept as its successor, so that zero means none. -/
structure Chains where
  /-- The last place of each chain. -/
  heads : Array Nat
  /-- The place before each place in its chain, by the place modulo the window. -/
  before : Array Nat
  /-- The first place that is in no chain yet. -/
  next : Nat

def Chains.empty : Chains := ⟨Array.replicate window 0, Array.replicate window 0, 0⟩

/-- The chain of the three bytes at a place. -/
def chainAt (data : ByteArray) (i : Nat) : Nat :=
  (((byteAt data i).toNat * 1024) ^^^ ((byteAt data (i + 1)).toNat * 32)
    ^^^ (byteAt data (i + 2)).toNat) % window

/-- The chains with the next place more, if three bytes begin there. -/
def Chains.add (c : Chains) (data : ByteArray) : Chains :=
  let ⟨heads, before, i⟩ := c
  if i + 2 < data.size then
    let chain := chainAt data i
    let last := heads.getD chain 0
    ⟨heads.setIfInBounds chain (i + 1), before.setIfInBounds (i % window) last, i + 1⟩
  else ⟨heads, before, i + 1⟩

/-- The chains with the next `n` places more. -/
def Chains.addMany (c : Chains) (data : ByteArray) : (n : Nat) → Chains
  | 0 => c
  | n + 1 => (c.add data).addMany data n

/-- The chains with all places up to one. -/
def Chains.addUpTo (c : Chains) (data : ByteArray) (i : Nat) : Chains :=
  c.addMany data (i + 1 - c.next)

/-! ## §2. Repetitions. -/

/-- A repetition: its length, and how far back its model is. -/
structure Match where
  length : Nat
  distance : Nat

/-- Another repetition if it is longer. -/
def Match.orLonger (best : Match) (length distance : Nat) : Match :=
  if length > best.length then ⟨length, distance⟩ else best

/-- How many of the next `limit` bytes at `i` are those at `j`. -/
def commonLength (data : ByteArray) (i j : Nat) : (limit : Nat) → Nat
  | 0 => 0
  | limit + 1 =>
    if byteAt data i = byteAt data j then commonLength data (i + 1) (j + 1) limit + 1 else 0

/-- How many places of a chain are looked at; fewer once a good repetition is known. -/
def probes (known : Nat) : Nat := if known < 32 then 128 else 32

/-- The distance up to which models are sought. -/
def reach : Nat := window - maxLength

/-- The longest repetition among the next places of a chain that is longer than `best`.  The
search ends at the first of full length; the very first byte of the text is no model. -/
def search (c : Chains) (data : ByteArray) (i limit : Nat) :
    (probes : Nat) → (place : Nat) → (best : Match) → Match
  | 0, _, best => best
  | probes + 1, place, best =>
    if place ≤ 1 then best
    else
      let j := place - 1
      let distance := i - j
      if distance = 0 ∨ distance > reach then best
      else
        let best := best.orLonger (commonLength data i j limit) distance
        if best.length ≥ limit then best
        else search c data i limit probes (c.before.getD (j % window) 0) best

/-- The repetition to use at a place, if one is longer than `known`.  Three bytes from far
away are not worth it. -/
def find? (c : Chains) (data : ByteArray) (i known : Nat) : Option Match :=
  let limit := min maxLength (data.size - i)
  if limit ≤ known then none
  else
    let start := c.before.getD (i % window) 0
    let m := search c data i limit (probes known) start ⟨known, 0⟩
    if m.distance = 0 ∨ (m.length = minLength ∧ m.distance ≥ 8192) then none else some m

/-! ## §3. Decisions. -/

/-- Lengths from which on a repetition is taken without a look at the next place. -/
def longMatch : Nat := 128

/-- What is done about a place. -/
structure Decision where
  /-- The tokens that are certain now. -/
  tokens : List Token
  /-- The place that is looked at next. -/
  next : Nat
  /-- The repetition at the place before that one, which is taken if there is no longer one. -/
  held : Option Match

/-- A repetition at place `i` taken or held, behind tokens that are certain. -/
def Match.choose (m : Match) (before : List Token) (i : Nat) : Decision :=
  if m.length ≥ longMatch then
    ⟨before ++ [.copy m.length m.distance], i + max m.length 1, none⟩
  else ⟨before, i + 1, some m⟩

/-- What is done about place `i`, with the repetition that is held from the place before. -/
def decide (c : Chains) (data : ByteArray) (i : Nat) : (held : Option Match) → Decision
  | none =>
    match find? c data i (minLength - 1) with
    | none => ⟨[.byte (byteAt data i)], i + 1, none⟩
    | some m => m.choose [] i
  | some held =>
    match find? c data i held.length with
    | none => ⟨[.copy held.length held.distance], i + max (held.length - 1) 1, none⟩
    | some m => m.choose [.byte (byteAt data (i - 1))] i

/-! ## §4. Stretches. -/

/-- The tokens of a stretch of the text. -/
structure Stretch where
  /-- Where it begins. -/
  first : Nat
  /-- Its tokens, in order. -/
  tokens : Array Token
  /-- The number of bytes they stand for. -/
  size : Nat
  /-- The room they take: one for a byte, three for a reference, one for every eight. -/
  room : Nat

def Stretch.startingAt (first : Nat) : Stretch := ⟨first, #[], 0, 1⟩

def Stretch.add (s : Stretch) (t : Token) : Stretch :=
  let ⟨first, tokens, size, room⟩ := s
  let flags := if (tokens.size + 1) % 8 = 0 then 1 else 0
  let taken := match t with | .byte _ => 1 | .copy _ _ => 3
  ⟨first, tokens.push t, size + t.length, room + taken + flags⟩

def Stretch.addAll (s : Stretch) (tokens : List Token) : Stretch := tokens.foldl add s

/-- The place behind a stretch. -/
def Stretch.stop (s : Stretch) : Nat := s.first + s.size

/-- Whether a stretch should end: it fills its room, or is long and hardly shrinks. -/
def Stretch.isFull (s : Stretch) : Bool :=
  s.room > 65536 - 8 || (s.size > 31 * 1024 && s.room * 115 / 128 ≥ s.size)

end ArtifactCourier.Deflate.Matches
