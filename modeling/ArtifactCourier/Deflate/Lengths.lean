/-
  ArtifactCourier.Deflate.Lengths
  ──────────────────────────────────────
  **Choosing the word lengths of a code.**

  The two rarest symbols are merged until one tree is left; the depths of its leaves are
  the lengths, the shallowest for the most frequent symbol.  Words that would be too long
  are shortened, and shorter ones lengthened in return until the words fit in.
-/

namespace ArtifactCourier.Deflate.Lengths

/-! ## §1. Merging. -/

/-- How many leaves a tree has at each depth, the root's depth first. -/
abbrev Profile := List Nat

def addProfiles : Profile → Profile → Profile
  | [], b => b
  | a, [] => a
  | x :: a, y :: b => (x + y) :: addProfiles a b

/-- A tree of symbols: how often they occur together, and its leaves by depth. -/
structure Bundle where
  weight : Nat
  profile : Profile

/-- The tree whose branches are two others. -/
def Bundle.join (a b : Bundle) : Bundle :=
  ⟨a.weight + b.weight, 0 :: addProfiles a.profile b.profile⟩

/-- The lighter of the first leaf and the first merged tree, and what is left of both.  The
leaf comes first if they weigh the same. -/
def lightest? : (leaves merged : List Bundle) → Option (Bundle × List Bundle × List Bundle)
  | [], [] => none
  | l :: leaves, [] => some (l, leaves, [])
  | [], m :: merged => some (m, [], merged)
  | l :: leaves, m :: merged =>
    if m.weight < l.weight then some (m, l :: leaves, merged) else some (l, leaves, m :: merged)

/-- Merges the two lightest trees until one is left.  Leaves and merged trees are each in the
order of weight; every step leaves one tree less. -/
def merge : (steps : Nat) → (leaves merged : List Bundle) → Profile
  | 0, _, _ => []
  | steps + 1, leaves, merged =>
    match lightest? leaves merged with
    | none => []
    | some (a, leaves, merged) =>
      match lightest? leaves merged with
      | none => a.profile
      | some (b, leaves, merged) => merge steps leaves (merged ++ [a.join b])

/-! ## §2. Limiting. -/

/-- How many words there are of each length, from length zero up to a greatest one. -/
abbrev Counts := List Nat

/-- The numbers of words with all that are longer than the limit made as long as it. -/
def cut : (limit : Nat) → Profile → Counts
  | 0, profile => [profile.foldr (· + ·) 0]
  | limit + 1, [] => 0 :: cut limit []
  | limit + 1, n :: profile => n :: cut limit profile

/-- How much room words take, in units of a word of the greatest length. -/
def used : Counts → Nat
  | [] => 0
  | n :: counts => n * Nat.pow 2 counts.length + used counts

/-- The number of words of the greatest length. -/
def longest (counts : Counts) : Nat := counts.getLastD 0

/-- One word of the greatest length less. -/
def dropLongest (counts : Counts) : Counts := counts.dropLast ++ [longest counts - 1]

/-- The longest word below the greatest length made longer by one bit, and a word at its side. -/
def lengthen? : Counts → Option Counts
  | n :: m :: counts =>
    match lengthen? (m :: counts) with
    | some counts => some (n :: counts)
    | none => if n = 0 then none else some ((n - 1) :: (m + 2) :: counts)
  | _ => none

/-- Takes one word of the greatest length to the side of a shorter one, which becomes longer. -/
def makeRoom (counts : Counts) : Counts :=
  let fewer := dropLongest counts
  (lengthen? fewer).getD fewer

/-- Makes room as often as words are in excess. -/
def makeRoomFor : (excess : Nat) → Counts → Counts
  | 0, counts => counts
  | excess + 1, counts => makeRoomFor excess (makeRoom counts)

/-- The numbers of words of each length, within the limit and the room there is. -/
def limited (limit : Nat) (profile : Profile) : Counts :=
  let counts := cut limit profile
  makeRoomFor (used counts - Nat.pow 2 limit) counts

/-! ## §3. Lengths. -/

/-- The lengths from `n` on that the numbers of words hand out, the short ones first. -/
def handOut (n : Nat) : Counts → List Nat
  | [] => []
  | count :: counts => List.replicate count n ++ handOut (n + 1) counts

/-- Lengths with those replaced that symbols are given. -/
def give (lengths : Array Nat) (given : List (Nat × Nat)) : Array Nat :=
  given.foldl (fun a g => a.setIfInBounds g.1 g.2) lengths

/-- The symbols that occur, and how often, the rarest first. -/
def occurring (frequencies : Array Nat) : List (Nat × Nat) :=
  (frequencies.toList.zipIdx.filter fun (f, _) => f ≠ 0).mergeSort fun a b => a.1 ≤ b.1

/-- The lengths for symbols in use, the short ones first; one that occurs alone has a word of one
bit. -/
def lengthsFor (limit : Nat) (sorted : List (Nat × Nat)) : List Nat :=
  if sorted.length = 1 then [1]
  else handOut 0 (limited limit (merge sorted.length (sorted.map fun p => ⟨p.1, [1]⟩) []))

/-- **Word lengths for symbols that occur as often as `frequencies` says.**  A symbol that does
not occur has no word. -/
def ofFrequencies (limit : Nat) (frequencies : Array Nat) : List Nat :=
  let sorted := occurring frequencies
  (give (Array.replicate frequencies.size 0)
    ((sorted.reverse.map (·.2)).zip (lengthsFor limit sorted))).toList

end ArtifactCourier.Deflate.Lengths
