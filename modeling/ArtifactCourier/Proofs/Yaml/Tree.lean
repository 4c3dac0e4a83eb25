/-
  ArtifactCourier.Proofs.Yaml.Tree
  ──────────────────────────────────────
  **The tree of a printed mapping.**

  The tokens of a printed mapping hold no names, tags or directives, so the grammar makes a
  node of each scalar and of each list, and pairs them.  The number of steps that the
  descent needs is bounded by the number of tokens.

    • `Builder.flatItems_texts` — the items of a list,
    • `Builder.node_value` — the node of a value,
    • `Builder.blockEntries_entries` — the entries,
    • `document?_documentTokens` — the tree is that of the mapping.
-/
import ArtifactCourier.Proofs.Yaml.Tokens
import ArtifactCourier.Yaml.Node

namespace ArtifactCourier.Yaml

/-! ## §1. What a mapping is read as. -/

/-- The node of a text. -/
def textNode (s : String) : Node := .scalar none (Style.ofText s.toList) s.toList

def Value.node : Value → Node
  | .null => .scalar none .plain "null".toList
  | .text s => textNode s
  | .list items => .sequence (items.map textNode)

def entryNode (e : String × Value) : Node × Node := (.scalar none .plain e.1.toList, e.2.node)

/-- The document of a mapping with these entries. -/
def documentOf (entries : List (String × Value)) : Document :=
  ⟨.mapping (entries.map entryNode), []⟩

/-! ## §2. The grammar on these tokens. -/

namespace Builder

/-- The builder in front of other tokens. -/
def facing (b : Builder) (ts : List Token) : Builder := { b with tokens := ts }

variable {b : Builder} {block flat : Bool} {steps : Nat} {rest more : List Token}

@[simp] theorem peek?_facing (t : Token) : (b.facing (t :: rest)).peek? = some t := rfl

@[simp] theorem skip_facing (t : Token) : (b.facing (t :: rest)).skip = b.facing rest := rfl

/-- A scalar is a node. -/
theorem node_scalar (style : Style) (text : List Char) :
    node block flat (steps + 1) (b.facing (.scalar style text :: rest))
      = some (.scalar none style text, b.facing rest) := by
  rw [node]
  rfl

/-- Two brackets are an empty sequence. -/
theorem node_brackets :
    node block flat (steps + 2) (b.facing (.flowSequenceStart :: .flowSequenceEnd :: rest))
      = some (.sequence [], b.facing rest) := by
  rw [node]
  rfl

/-- A dash begins a sequence where list items may stand. -/
theorem node_dash {items : List Node}
    (h : flatItems steps (b.facing (.blockEntry :: rest)) = some (items, b.facing more)) :
    node block true (steps + 1) (b.facing (.blockEntry :: rest))
      = some (.sequence items, b.facing more) := by
  have unnamed : (b.facing (.blockEntry :: rest)).properties
      = (none, none, b.facing (.blockEntry :: rest)) := rfl
  rw [node]
  simp only [peek?_facing, unnamed, tagOf?, Option.bind_eq_bind, Option.bind_some, if_true, h]
  rfl

/-- An explicit node is not understood to be empty. -/
theorem nodeBefore_of_not_end {ends : List Token} {t : Token} (h : t ∉ ends) :
    nodeBefore ends block flat (steps + 1) (b.facing (t :: rest))
      = node block flat steps (b.facing (t :: rest)) := by
  rw [nodeBefore, if_neg]
  simpa [atAny] using h

/-- **The items of a list.** -/
theorem flatItems_texts {items : List String} (enough : items.length + 3 ≤ steps)
    (stop : rest.head? ≠ some .blockEntry) :
    flatItems steps (b.facing ((items.flatMap fun s => [.blockEntry, textToken s]) ++ rest))
      = some (items.map textNode, b.facing rest) := by
  induction items generalizing steps with
  | nil =>
    obtain ⟨steps, rfl⟩ : ∃ n, steps = n + 1 := ⟨steps - 1, by omega⟩
    rw [flatItems]
    split
    · next dash => exact absurd dash stop
    · rfl
  | cons s items ih =>
    obtain ⟨steps, rfl⟩ : ∃ n, steps = n + 3 :=
      ⟨steps - 3, by rw [List.length_cons] at enough; omega⟩
    have others := @ih (steps + 2) (by rw [List.length_cons] at enough; omega)
    rw [flatItems]
    simp only [List.flatMap_cons, List.cons_append, List.nil_append, peek?_facing, skip_facing]
    rw [textToken, nodeBefore_of_not_end (by simp), node_scalar]
    simp only [Option.bind_eq_bind, Option.bind_some, others]
    rfl

theorem length_le_itemTokens (items : List String) :
    items.length ≤ (items.flatMap fun s => [Token.blockEntry, textToken s]).length := by
  induction items with
  | nil => exact Nat.le_refl 0
  | cons s items ih =>
    rw [List.flatMap_cons, List.length_append, List.length_cons]
    simp only [List.length_cons, List.length_nil]
    omega

/-- What may follow a value: the next key, or the end of the mapping. -/
def endsValue (rest : List Token) : Prop := rest.head? = some .key ∨ rest.head? = some .blockEnd

/-- **The node of a value.** -/
theorem node_value {value : Value} (enough : value.tokens.length + 5 ≤ steps)
    (stop : endsValue rest) :
    nodeBefore [.key, .value, .blockEnd] true true steps (b.facing (value.tokens ++ rest))
      = some (value.node, b.facing rest) := by
  obtain ⟨steps, rfl⟩ : ∃ n, steps = n + 4 := ⟨steps - 4, by omega⟩
  cases value with
  | null => exact (nodeBefore_of_not_end (by simp)).trans (node_scalar _ _)
  | text s => exact (nodeBefore_of_not_end (by simp [textToken])).trans (node_scalar _ _)
  | list items =>
    cases items with
    | nil => exact (nodeBefore_of_not_end (by simp)).trans node_brackets
    | cons s items =>
      have length : (s :: items).length ≤ (Value.list (s :: items)).tokens.length :=
        length_le_itemTokens (s :: items)
      have noDash : rest.head? ≠ some .blockEntry := by
        rcases stop with h | h <;> simp [h]
      have read := @flatItems_texts b (steps + 2) rest (s :: items) (by omega) noDash
      exact (nodeBefore_of_not_end (by simp)).trans (node_dash read)

/-- **The entries of a mapping.** -/
theorem blockEntries_entries {entries : List (String × Value)}
    (enough : (entriesTokens entries).length + 6 ≤ steps) :
    blockEntries steps (b.facing (entriesTokens entries ++ .blockEnd :: rest))
      = some (entries.map entryNode, b.facing rest) := by
  induction entries generalizing steps with
  | nil =>
    obtain ⟨steps, rfl⟩ : ∃ n, steps = n + 1 := ⟨steps - 1, by omega⟩
    rw [blockEntries]
    rfl
  | cons e entries ih =>
    obtain ⟨key, value⟩ := e
    simp only [entriesTokens, entryTokens, List.cons_append, List.append_assoc, List.length_cons,
      List.length_append] at enough ⊢
    -- A step for the entry, one for its key and one for its value; the others need no more.
    obtain ⟨steps, rfl⟩ : ∃ n, steps = n + 3 := ⟨steps - 3, by omega⟩
    have others := @ih (steps + 2) (by omega)
    have stop : endsValue (entriesTokens entries ++ .blockEnd :: rest) := by
      cases entries with
      | nil => exact .inr rfl
      | cons e entries => exact .inl rfl
    have valued := @node_value b (steps + 1) _ value (by omega) stop
    rw [blockEntries]
    simp only [peek?_facing, skip_facing]
    rw [nodeBefore_of_not_end (by simp), node_scalar]
    simp only [Option.bind_eq_bind, Option.bind_some]
    rw [blockValue]
    simp only [peek?_facing, skip_facing, valued, Option.bind_some, others]
    rfl

/-- The mapping begins and ends as a block. -/
theorem node_mapping {entries : List (String × Value)}
    (enough : (entriesTokens entries).length + 7 ≤ steps) :
    node true flat steps
        (b.facing (.blockMappingStart :: (entriesTokens entries ++ .blockEnd :: rest)))
      = some (.mapping (entries.map entryNode), b.facing rest) := by
  obtain ⟨steps, rfl⟩ : ∃ n, steps = n + 1 := ⟨steps - 1, by omega⟩
  have unnamed : ∀ ts, (b.facing (.blockMappingStart :: ts)).properties
      = (none, none, b.facing (.blockMappingStart :: ts)) := fun _ => rfl
  have read := @blockEntries_entries b steps rest entries (by omega)
  rw [node]
  simp only [peek?_facing, skip_facing, unnamed, tagOf?, Option.bind_eq_bind, Option.bind_some]
  rw [if_neg (by simp), if_pos (by simp), read]
  rfl

end Builder

/-- A document that is a mapping without directives, names and tags. -/
theorem document?_of_node {rest : List Token} {root : Node}
    (h : Builder.node true false (4 * (rest.length + 1) + 8)
        ⟨.blockMappingStart :: rest, TagHandle.defaults, [], [], []⟩
      = some (root, ⟨[.streamEnd], TagHandle.defaults, [], [], []⟩)) :
    document? (.blockMappingStart :: rest) = some (some ⟨root, []⟩) := by
  simp [document?, Builder.directives, h, Builder.anchors]

/-- **The tree of a printed mapping** is the mapping. -/
theorem document?_documentTokens (entries : List (String × Value)) :
    document? (documentTokens entries) = some (some (documentOf entries)) := by
  let b : Builder := ⟨[], TagHandle.defaults, [], [], []⟩
  let rest := entriesTokens entries ++ [.blockEnd, .streamEnd]
  have enough : (entriesTokens entries).length + 7 ≤ 4 * (rest.length + 1) + 8 := by
    simp only [rest, List.length_append]
    omega
  exact document?_of_node (@Builder.node_mapping b false _ [.streamEnd] entries enough)

end ArtifactCourier.Yaml
