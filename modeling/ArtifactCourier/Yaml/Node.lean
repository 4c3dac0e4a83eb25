/-
  ArtifactCourier.Yaml.Node
  ──────────────────────────────────────
  **From tokens to a tree.**

  The grammar of documents, by recursive descent.  Every function takes the builder,
  whose tokens it uses up, and a number of steps that bounds the descent; as every step
  that leads to another one uses a token or follows one that did, four steps for each
  token are enough.

  An alias stays an alias in the tree, because it may stand inside the node that it
  refers to.  `Document.resolve` follows it.
-/
import ArtifactCourier.Yaml.Lexer

namespace ArtifactCourier.Yaml

/-! ## §1. Trees. -/

/-- A node of a document. -/
inductive Node where
  /-- A text, with its tag if it has one. -/
  | scalar (tag : Option (List Char)) (style : Style) (text : List Char)
  | sequence (items : List Node)
  | mapping (entries : List (Node × Node))
  /-- The node with that anchor number. -/
  | alias (anchor : Nat)
deriving Repr, Inhabited

def Node.empty (tag : Option (List Char)) : Node := .scalar tag .plain []

/-- What a tag handle stands for. -/
structure TagHandle where
  handle : List Char
  tagPrefix : List Char

/-- The handles that need no directive. -/
def TagHandle.defaults : List TagHandle :=
  [⟨['!'], ['!']⟩, ⟨['!', '!'], "tag:yaml.org,2002:".toList⟩]

/-- The tag that handle and suffix spell; an empty handle adds nothing. -/
def TagHandle.resolve? (handles : List TagHandle) (handle suffix : List Char) :
    Option (List Char) :=
  if handle.isEmpty then some suffix
  else (handles.find? (·.handle == handle)).map (·.tagPrefix ++ suffix)

/-! ## §2. The builder. -/

/-- The tokens that are left, and what is known about handles and anchors.

Anchors are numbered.  A new anchor gets the number of names that are known before it, so a
name that is used again takes a number that a later new name may take as well; the number
then refers to the node that began last. -/
structure Builder where
  tokens : List Token
  handles : List TagHandle
  /-- The number that each name refers to now. -/
  names : List (List Char × Nat)
  /-- Which node each number refers to: nodes are counted as they begin. -/
  targets : List (Nat × Nat)
  /-- The finished nodes that have an anchor. -/
  finished : List (Nat × Node)

namespace Builder

def peek? (b : Builder) : Option Token := b.tokens.head?

def skip (b : Builder) : Builder := { b with tokens := b.tokens.tail }

/-- Whether the next token is one of `ts`, or there is none. -/
def atAny (b : Builder) (ts : List Token) : Bool := b.peek?.all ts.contains

/-- Notes an anchor on the node that begins here, and gives the node's count. -/
def bind (b : Builder) (name : List Char) : Nat × Builder :=
  let number := b.names.length
  let count := b.targets.length
  let others := b.names.filter (·.1 != name)
  (count, { b with names := (name, number) :: others, targets := (number, count) :: b.targets })

def number? (b : Builder) (name : List Char) : Option Nat := b.names.lookup name

/-- Anchor and tag in front of a node, in either order. -/
def properties (b : Builder) : Option (List Char) × Option Token × Builder :=
  match b.peek? with
  | some (.anchor name) =>
    let b := b.skip
    match b.peek? with
    | some (.tag handle suffix) => (some name, some (.tag handle suffix), b.skip)
    | _ => (some name, none, b)
  | some (.tag handle suffix) =>
    let b := b.skip
    match b.peek? with
    | some (.anchor name) => (some name, some (.tag handle suffix), b.skip)
    | _ => (none, some (.tag handle suffix), b)
  | _ => (none, none, b)

def tagOf? (b : Builder) : Option Token → Option (Option (List Char))
  | some (.tag handle suffix) => (TagHandle.resolve? b.handles handle suffix).map some
  | _ => some none

/-- A lone exclamation mark on a scalar is no tag. -/
def scalarTag (tag : Option (List Char)) : Option (List Char) :=
  if tag = some ['!'] then none else tag

/-- Notes the node that was begun as number `count`. -/
def finish (b : Builder) (count : Option Nat) (n : Node) : Builder :=
  match count with
  | some count => { b with finished := (count, n) :: b.finished }
  | none => b

/-! ## §3. The grammar. -/

mutual

/-- A node.  `block` says whether a block may begin here, `flat` whether list items may stand
here without a deeper indentation. -/
def node (block flat : Bool) : (steps : Nat) → Builder → Option (Node × Builder)
  | 0, _ => none
  | steps + 1, b =>
    match b.peek? with
    | some (.alias name) => do
      let number ← b.number? name
      some (.alias number, b.skip)
    | _ => do
      let (anchor, tagToken, b) := b.properties
      let tag ← b.tagOf? tagToken
      let (count, b) :=
        match anchor with
        | some name => let (count, b) := b.bind name; (some count, b)
        | none => (none, b)
      let (n, b) ←
        match b.peek? with
        | some .blockEntry =>
          if flat then do
            let (items, b) ← flatItems steps b
            some (.sequence items, b)
          else if anchor.isSome ∨ tag.isSome then some (Node.empty tag, b) else none
        | some (.scalar style text) => some (.scalar (scalarTag tag) style text, b.skip)
        | some .flowSequenceStart => do
          let (items, b) ← flowItems true steps b.skip
          some (.sequence items, b)
        | some .flowMappingStart => do
          let (entries, b) ← flowEntries true steps b.skip
          some (.mapping entries, b)
        | some t =>
          if block = true ∧ t = .blockSequenceStart then do
            let (items, b) ← blockItems steps b.skip
            some (.sequence items, b)
          else if block = true ∧ t = .blockMappingStart then do
            let (entries, b) ← blockEntries steps b.skip
            some (.mapping entries, b)
          else if anchor.isSome ∨ tag.isSome then some (Node.empty tag, b) else none
        | none => if anchor.isSome ∨ tag.isSome then some (Node.empty tag, b) else none
      some (n, b.finish count n)

/-- A node unless one of `ends` comes first; then it is understood to be empty. -/
def nodeBefore (ends : List Token) (block flat : Bool) :
    (steps : Nat) → Builder → Option (Node × Builder)
  | 0, _ => none
  | steps + 1, b =>
    if b.atAny ends then some (Node.empty none, b) else node block flat steps b

/-- The items of a block sequence, up to its end. -/
def blockItems : (steps : Nat) → Builder → Option (List Node × Builder)
  | 0, _ => none
  | steps + 1, b =>
    match b.peek? with
    | some .blockEntry => do
      let (n, b) ← nodeBefore [.blockEntry, .blockEnd] true false steps b.skip
      let (items, b) ← blockItems steps b
      some (n :: items, b)
    | some .blockEnd => some ([], b.skip)
    | _ => none

/-- The items of a sequence that is not indented deeper than the mapping around it. -/
def flatItems : (steps : Nat) → Builder → Option (List Node × Builder)
  | 0, _ => none
  | steps + 1, b =>
    match b.peek? with
    | some .blockEntry => do
      let (n, b) ← nodeBefore [.blockEntry, .key, .value, .blockEnd] true false steps b.skip
      let (items, b) ← flatItems steps b
      some (n :: items, b)
    | _ => some ([], b)

/-- The entries of a block mapping, up to its end. -/
def blockEntries : (steps : Nat) → Builder → Option (List (Node × Node) × Builder)
  | 0, _ => none
  | steps + 1, b =>
    match b.peek? with
    | some .key => do
      let (key, b) ← nodeBefore [.key, .value, .blockEnd] true true steps b.skip
      let (value, b) ← blockValue steps b
      let (entries, b) ← blockEntries steps b
      some ((key, value) :: entries, b)
    | some .blockEnd => some ([], b.skip)
    | _ => none

/-- The value of an entry of a block mapping. -/
def blockValue : (steps : Nat) → Builder → Option (Node × Builder)
  | 0, _ => none
  | steps + 1, b =>
    match b.peek? with
    | some .value => nodeBefore [.key, .value, .blockEnd] true true steps b.skip
    | _ => some (Node.empty none, b)

/-- The items of a bracketed sequence, up to its end; all but the first follow a comma.  An
item that is a key with a value is a mapping of one entry. -/
def flowItems (first : Bool) : (steps : Nat) → Builder → Option (List Node × Builder)
  | 0, _ => none
  | steps + 1, b =>
    if b.peek? = some .flowSequenceEnd then some ([], b.skip)
    else do
      let b ← if first then some b else if b.peek? = some .flowEntry then some b.skip else none
      match b.peek? with
      | some .flowSequenceEnd => some ([], b.skip)
      | some .key => do
        let (entry, b) ← flowPair steps b.skip
        let (items, b) ← flowItems false steps b
        some (.mapping [entry] :: items, b)
      | _ => do
        let (n, b) ← node false false steps b
        let (items, b) ← flowItems false steps b
        some (n :: items, b)

/-- The key and value of an item of a bracketed sequence.  Where the key is empty, the token
that shows it is used up with it. -/
def flowPair : (steps : Nat) → Builder → Option ((Node × Node) × Builder)
  | 0, _ => none
  | steps + 1, b => do
    let (key, b) ←
      if b.atAny [.value, .flowEntry, .flowSequenceEnd] then some (Node.empty none, b.skip)
      else node false false steps b
    match b.peek? with
    | some .value => do
      let (value, b) ← nodeBefore [.flowEntry, .flowSequenceEnd] false false steps b.skip
      some ((key, value), b)
    | _ => some ((key, Node.empty none), b)

/-- The entries of a bracketed mapping, up to its end; all but the first follow a comma.  A
node without a key in front is a key without a value. -/
def flowEntries (first : Bool) :
    (steps : Nat) → Builder → Option (List (Node × Node) × Builder)
  | 0, _ => none
  | steps + 1, b =>
    if b.peek? = some .flowMappingEnd then some ([], b.skip)
    else do
      let b ← if first then some b else if b.peek? = some .flowEntry then some b.skip else none
      match b.peek? with
      | some .flowMappingEnd => some ([], b.skip)
      | some .key => do
        let (key, b) ←
          nodeBefore [.value, .flowEntry, .flowMappingEnd] false false steps b.skip
        let (value, b) ←
          match b.peek? with
          | some .value => nodeBefore [.flowEntry, .flowMappingEnd] false false steps b.skip
          | _ => some (Node.empty none, b)
        let (entries, b) ← flowEntries false steps b
        some ((key, value) :: entries, b)
      | _ => do
        let (key, b) ← node false false steps b
        let (entries, b) ← flowEntries false steps b
        some ((key, Node.empty none) :: entries, b)

end

/-! ## §4. Documents. -/

/-- Reads the directives of a document: each handle once, and one version at most, which must
be 1.1 or 1.2.  Tells whether there were any. -/
def directives (versioned any : Bool) (handles : List TagHandle) :
    List Token → Option (Bool × List TagHandle × List Token)
  | .version major minor :: ts =>
    if versioned = false ∧ major = 1 ∧ (minor = 1 ∨ minor = 2) then
      directives true true handles ts
    else none
  | .tagHandle handle tagPrefix :: ts =>
    if handles.any (·.handle == handle) then none
    else directives versioned true (⟨handle, tagPrefix⟩ :: handles) ts
  | ts => some (any, handles, ts)

end Builder

/-- A document: its root, and the nodes that its aliases refer to. -/
structure Document where
  root : Node
  anchors : List (Nat × Node)
deriving Inhabited

/-- The node that an alias refers to; any other node is itself. -/
def Document.resolve (d : Document) (n : Node) : Node :=
  match n with
  | .alias number => (d.anchors.lookup number).getD n
  | _ => n

def Builder.anchors (b : Builder) : List (Nat × Node) :=
  b.targets.filterMap fun (number, count) => (b.finished.lookup count).map (number, ·)

/-- **The only document of a stream**, if there is one: nothing but document ends may follow it.
`none` is a malformed stream, an inner `none` an empty one. -/
def document? (tokens : List Token) : Option (Option Document) := do
  let (directed, handles, rest) ← Builder.directives false false [] tokens
  let given := handles ++ TagHandle.defaults
  let b : Builder := ⟨rest, given, [], [], []⟩
  let steps := 4 * tokens.length + 8
  match rest with
  | [.streamEnd] => if directed then none else some none
  | _ =>
    let (root, b) ←
      if rest.head? = some .documentStart then
        let b := b.skip
        match b.peek? with
        | some (.version _ _) | some (.tagHandle _ _) | some .documentStart
        | some .documentEnd | some .streamEnd => some (Node.empty none, b)
        | _ => Builder.node true false steps b
      else if directed then none
      else Builder.node true false steps b
    if b.tokens.dropWhile (· == .documentEnd) = [.streamEnd] then
      some (some ⟨root, b.anchors⟩)
    else none

end ArtifactCourier.Yaml
