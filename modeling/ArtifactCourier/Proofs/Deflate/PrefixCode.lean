/-
  ArtifactCourier.Proofs.Deflate.PrefixCode
  ──────────────────────────────────────
  **A word of a prefix code is read as its symbol.**

  A word goes into a tree if no word of the tree begins it and it begins none
  (`CodeTree.exists_insert?`).  Words that are apart stay out of each other's way: what one of
  them needs is still clear when the others are in (`CodeTree.clear_of_insert?`), and what is
  in stays readable (`CodeTree.read?_insert?`).  With room for the words the whole tree can be
  built, and it reads every word that the table hands out (`exists_tree`).
-/
import ArtifactCourier.Proofs.Deflate.Bits
import ArtifactCourier.Proofs.Deflate.Words

namespace ArtifactCourier.Deflate

/-! ## §1. Trees. -/

namespace CodeTree

/-- No word of the tree begins the bits, and they begin none. -/
def Clear : CodeTree → List Bool → Prop
  | empty, _ => True
  | node zero one, b :: bits => if b then one.Clear bits else zero.Clear bits
  | _, _ => False

variable {t u : CodeTree} {word other : List Bool} {symbol : Nat}

/-- Where the way is clear, a word goes in. -/
theorem exists_insert? (symbol : Nat) (h : t.Clear word) : ∃ u, t.insert? word symbol = some u := by
  induction word generalizing t with
  | nil =>
    cases t with
    | empty => exact ⟨_, rfl⟩
    | leaf _ => exact h.elim
    | node _ _ => exact h.elim
  | cons b bits ih =>
    cases t with
    | empty =>
      obtain ⟨u, hu⟩ := ih (t := empty) trivial
      exact ⟨_, by rw [insert?, hu, Option.map_some]⟩
    | leaf _ => exact h.elim
    | node zero one =>
      cases b
      · obtain ⟨u, hu⟩ := ih (t := zero) h
        exact ⟨node u one, by simp [insert?, hu]⟩
      · obtain ⟨u, hu⟩ := ih (t := one) h
        exact ⟨node zero u, by simp [insert?, hu]⟩

/-- A word does not get in the way of one that is apart from it. -/
theorem clear_of_insert? (h : t.insert? word symbol = some u) (clear : t.Clear other)
    (apart : Apart word other) : u.Clear other := by
  induction word generalizing t u other with
  | nil => exact absurd List.nil_prefix apart.1
  | cons b bits ih =>
    cases other with
    | nil => exact absurd List.nil_prefix apart.2
    | cons c more =>
      have behind (same : b = c) : Apart bits more := by
        subst same
        exact ⟨fun begins => apart.1 (List.cons_prefix_cons.2 ⟨rfl, begins⟩),
          fun begins => apart.2 (List.cons_prefix_cons.2 ⟨rfl, begins⟩)⟩
      cases t with
      | leaf _ => cases h
      | empty =>
        obtain ⟨v, hv, rfl⟩ := Option.map_eq_some_iff.1 h
        have inside (same : b = c) : v.Clear more := ih hv trivial (behind same)
        cases b <;> cases c
        · exact inside rfl
        · trivial
        · trivial
        · exact inside rfl
      | node zero one =>
        cases b <;> obtain ⟨v, hv, rfl⟩ := Option.map_eq_some_iff.1 h <;> cases c
        · have inside : v.Clear more := ih hv clear (behind rfl)
          exact inside
        · exact clear
        · exact clear
        · have inside : v.Clear more := ih hv clear (behind rfl)
          exact inside

/-- What the tree reads, it still reads with a word more. -/
theorem read?_insert? (h : t.insert? word symbol = some u) {bits : List Bool}
    {found : Nat × List Bool} (read : t.read? bits = some found) : u.read? bits = some found := by
  induction word generalizing t u bits with
  | nil =>
    cases t with
    | empty => cases bits <;> cases read
    | leaf _ => cases h
    | node _ _ => cases h
  | cons b word ih =>
    cases t with
    | empty => cases bits <;> cases read
    | leaf _ => cases h
    | node zero one =>
      cases bits with
      | nil => cases read
      | cons c bits =>
        cases b <;> obtain ⟨v, hv, rfl⟩ := Option.map_eq_some_iff.1 h <;> cases c
        · exact ih hv read
        · exact read
        · exact read
        · exact ih hv read

/-- **Words that are apart all go in**, and each is read as the symbol of its place. -/
theorem exists_grow? {words : List (List Bool)} (symbol : Nat)
    (clear : ∀ w ∈ words, w ≠ [] → t.Clear w)
    (apart : words.Pairwise fun u v => u ≠ [] → v ≠ [] → Apart u v) :
    ∃ u, t.grow? symbol words = some u
      ∧ (∀ bits found, t.read? bits = some found → u.read? bits = some found)
      ∧ ∀ i w, words[i]? = some w → w ≠ [] →
          ∀ rest, u.read? (w ++ rest) = some (symbol + i, rest) := by
  induction words generalizing t symbol with
  | nil => exact ⟨t, rfl, fun _ _ read => read, fun i w hw => by simp at hw⟩
  | cons word words ih =>
    obtain ⟨here, later⟩ := List.forall_mem_cons.1 clear
    obtain ⟨apart_here, apart_later⟩ := List.pairwise_cons.1 apart
    rcases eq_or_ne word [] with rfl | some_word
    · -- a symbol without a word leaves the tree as it is
      obtain ⟨u, grown, kept, reads⟩ := ih (symbol + 1) later apart_later
      refine ⟨u, by simpa [grow?] using grown, kept, fun i w hw nonempty rest => ?_⟩
      cases i with
      | zero => exact absurd (Option.some.inj hw).symm nonempty
      | succ i =>
        rw [reads i w hw nonempty rest]
        congr 2
        omega
    · obtain ⟨v, inserted⟩ := exists_insert? symbol (here some_word)
      obtain ⟨u, grown, kept, reads⟩ := ih (symbol + 1)
        (fun w hw nonempty =>
          clear_of_insert? inserted (later w hw nonempty) (apart_here w hw some_word nonempty))
        apart_later
      have step : t.grow? symbol (word :: words) = some u := by
        have not_empty : word.isEmpty = false := by simpa using some_word
        simp only [grow?, not_empty, Bool.false_eq_true, if_false, inserted, Option.bind_eq_bind,
          Option.bind_some, grown]
      refine ⟨u, step, fun bits found read => kept _ _ (read?_insert? inserted read),
        fun i w hw nonempty rest => ?_⟩
      cases i with
      | zero =>
        obtain rfl : word = w := Option.some.inj hw
        exact kept _ _ (read?_of_insert? rest inserted)
      | succ i =>
        rw [reads i w hw nonempty rest]
        congr 2
        omega

end CodeTree

/-! ## §2. Tables. -/

/-- What a writer and a reader agree on: the word of a symbol takes at least one bit, and is
read as the symbol. -/
def WordTable.Reads (table : WordTable) (tree : CodeTree) (symbol : Nat) : Prop :=
  0 < (table.word symbol).width
    ∧ ∀ rest, tree.read? ((table.word symbol).bits ++ rest) = some (symbol, rest)

/-- **With room for the words the tree can be built, and reads what the table hands out**: the
word of every symbol that has a length. -/
theorem exists_tree {maxLength : Nat} {lengths : List Nat} (room : HaveRoom maxLength lengths) :
    ∃ tree, CodeTree.ofLengths? maxLength lengths = some tree
      ∧ ∀ symbol, lengths.getD symbol 0 ≠ 0 →
          (WordTable.ofLengths maxLength lengths).Reads tree symbol := by
  obtain ⟨tree, grown, -, reads⟩ := CodeTree.exists_grow? (t := .empty) 0 (fun _ _ _ => trivial)
    (pairwise_apart_wordsOf room)
  refine ⟨tree, grown, fun symbol used => ?_⟩
  cases there : lengths[symbol]? with
  | none => simp [List.getD, there] at used
  | some n =>
    have some_length : n ≠ 0 := by simpa [List.getD, there] using used
    have word := getElem?_wordsOf room.short symbol
    rw [there, Option.map_some] at word
    have field : (WordTable.ofLengths maxLength lengths).word symbol
        = BitField.ofBits
            (wordBits n (firstWord lengths n + (lengths.take symbol).count n)) := by
      simp [WordTable.word, WordTable.ofLengths, word, Array.getD_eq_getD_getElem?]
    have long : 0 < (wordBits n (firstWord lengths n + (lengths.take symbol).count n)).length := by
      rw [length_wordBits]
      exact Nat.pos_of_ne_zero some_length
    refine ⟨by rw [field]; exact long, fun rest => ?_⟩
    rw [field, BitField.bits_ofBits, reads symbol _ word (List.length_pos_iff.1 long), Nat.zero_add]

end ArtifactCourier.Deflate
