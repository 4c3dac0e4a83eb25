/-
  ArtifactCourier.Deflate.Huffman
  ──────────────────────────────────────
  **Prefix codes.**

  A code is given by the lengths of its words, one for each symbol; length zero means
  that the symbol has no word.  Words are handed out in the order of length and then of
  symbol, which is what lets the lengths alone describe the code.

  A writer looks a word up in a table.  A reader goes down a tree, which holds every word as
  the way to its symbol, and can only be built if no word begins another.
-/
import ArtifactCourier.Deflate.Bits

namespace ArtifactCourier.Deflate

/-! ## §1. Trees. -/

/-- A tree of words. -/
inductive CodeTree where
  | empty
  | leaf (symbol : Nat)
  | node (zero one : CodeTree)
deriving DecidableEq, Repr, Inhabited

namespace CodeTree

/-- The tree with a word more, unless it begins another word or another begins it. -/
def insert? : CodeTree → List Bool → Nat → Option CodeTree
  | empty, [], symbol => some (leaf symbol)
  | empty, b :: bits, symbol =>
    (insert? empty bits symbol).map fun t => if b then node empty t else node t empty
  | node zero one, b :: bits, symbol =>
    if b then (insert? one bits symbol).map (node zero ·)
    else (insert? zero bits symbol).map (node · one)
  | _, _, _ => none

/-- The symbol whose word begins the bits, and the bits behind it. -/
def read? : CodeTree → List Bool → Option (Nat × List Bool)
  | leaf symbol, bits => some (symbol, bits)
  | node zero one, b :: bits => if b then read? one bits else read? zero bits
  | _, _ => none

/-- A word that was inserted is read. -/
theorem read?_of_insert? {t u : CodeTree} {word : List Bool} {symbol : Nat} (rest : List Bool)
    (h : t.insert? word symbol = some u) : u.read? (word ++ rest) = some (symbol, rest) := by
  induction word generalizing t u with
  | nil =>
    cases t <;> simp [insert?] at h
    subst h; rfl
  | cons b bits ih =>
    cases t with
    | leaf _ => simp [insert?] at h
    | empty =>
      simp only [insert?, Option.map_eq_some_iff] at h
      obtain ⟨v, hv, rfl⟩ := h
      cases b <;> simp [read?, ih hv]
    | node zero one =>
      cases b <;> simp only [insert?, Option.map_eq_some_iff, if_true, if_false,
        Bool.false_eq_true] at h <;> obtain ⟨v, hv, rfl⟩ := h <;> simp [read?, ih hv]

/-- The tree with words more, each with its place behind `symbol` as its symbol; empty words are
left out. -/
def grow? (t : CodeTree) (symbol : Nat) : List (List Bool) → Option CodeTree
  | [] => some t
  | word :: words => do
    let t ← if word.isEmpty then some t else t.insert? word symbol
    grow? t (symbol + 1) words

end CodeTree

/-! ## §2. Words from lengths. -/

/-- The bits of a number, the high one first. -/
def wordBits (width n : Nat) : List Bool := ((List.range width).map n.testBit).reverse

/-- The first word of a length, as a number: one step to the right of the last word of the length
before, with a zero bit behind it. -/
def firstWord (lengths : List Nat) : (length : Nat) → Nat
  | 0 => 0
  | n + 1 => 2 * (firstWord lengths n + if n = 0 then 0 else lengths.count n)

/-- The words of symbols with the given lengths; `next` holds the next word of each length. -/
def wordsFrom (next : Array Nat) : (lengths : List Nat) → List (List Bool)
  | [] => []
  | n :: lengths => wordBits n (next.getD n 0) :: wordsFrom (next.modify n (· + 1)) lengths

/-- **The words of a code**, one for each symbol; a symbol of length zero has an empty one. -/
def wordsOf (maxLength : Nat) (lengths : List Nat) : List (List Bool) :=
  wordsFrom (Array.ofFn fun n : Fin (maxLength + 1) => firstWord lengths n.val) lengths

/-- The tree of the lengths, if no word begins another. -/
def CodeTree.ofLengths? (maxLength : Nat) (lengths : List Nat) : Option CodeTree :=
  CodeTree.empty.grow? 0 (wordsOf maxLength lengths)

/-- The words of a code as fields, by symbol. -/
structure WordTable where
  words : Array BitField

namespace WordTable

def ofLengths (maxLength : Nat) (lengths : List Nat) : WordTable :=
  ⟨((wordsOf maxLength lengths).map BitField.ofBits).toArray⟩

/-- The word of a symbol. -/
def word (t : WordTable) (symbol : Nat) : BitField := t.words.getD symbol ⟨0, 0⟩

end WordTable
end ArtifactCourier.Deflate
