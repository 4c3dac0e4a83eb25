/-
  ArtifactCourier.Proofs.Yaml.Tokens
  ──────────────────────────────────────
  **The tokens of a printed mapping.**

  Between two entries the lexer stands at the beginning of a line with no key pending
  (`AtLine`), and behind a key or a dash within a line (`within`).  From the one it gets to
  the other by the steps of an entry, and there are never more steps than characters
  (`Passes`).

    • `step_text` — a text is one token, in the style in which it was written,
    • `passes_key` — a name and its colon are a key,
    • `passes_value`, `passes_entry` — a value and an entry are read as they were written,
    • `tokens?_document` — the tokens of the whole text.
-/
import ArtifactCourier.Proofs.Yaml.Printed
import ArtifactCourier.Yaml.Lexer

namespace ArtifactCourier.Yaml

/-! ## §1. What a printed mapping stands for. -/

/-- The token of a text: it is read as it was written. -/
def textToken (s : String) : Token := .scalar (Style.ofText s.toList) s.toList

def Value.tokens : Value → List Token
  | .null => [.scalar .plain "null".toList]
  | .text s => [textToken s]
  | .list [] => [.flowSequenceStart, .flowSequenceEnd]
  | .list items => items.flatMap fun s => [.blockEntry, textToken s]

def entryTokens (key : String) (value : Value) : List Token :=
  .key :: .scalar .plain key.toList :: .value :: value.tokens

def entriesTokens : List (String × Value) → List Token
  | [] => []
  | (key, value) :: entries => entryTokens key value ++ entriesTokens entries

/-- The tokens of a mapping with these entries. -/
def documentTokens (entries : List (String × Value)) : List Token :=
  .blockMappingStart :: entriesTokens entries ++ [.blockEnd, .streamEnd]

/-! ## §2. Steps of the lexer. -/

namespace Lexer

/-- `n` steps that end no text lead from one lexer to the other. -/
inductive Steps : Nat → Lexer → Lexer → Prop
  | refl (l : Lexer) : Steps 0 l l
  | step {n : Nat} {l l' l'' : Lexer} (h : l.step = some (false, l')) (steps : Steps n l' l'') :
      Steps (n + 1) l l''

theorem Steps.run {n : Nat} {l l' : Lexer} (h : Steps n l l') (k : Nat) :
    Lexer.run (n + k) l = Lexer.run k l' := by
  induction h with
  | refl => rw [Nat.zero_add]
  | step h _ ih =>
    rw [Nat.succ_add, Lexer.run, h]
    exact ih

theorem Steps.trans {m n : Nat} {l l' l'' : Lexer} (h : Steps m l l') (h' : Steps n l' l'') :
    Steps (m + n) l l'' := by
  induction h with
  | refl => rwa [Nat.zero_add]
  | step h _ ih =>
    rw [Nat.succ_add]
    exact .step h (ih h')

/-- The way over the characters of `cs`, which takes no more steps than there are characters. -/
def Passes (cs : List Char) (l l' : Lexer) : Prop := ∃ n ≤ cs.length, Steps n l l'

theorem Passes.append {cs ds : List Char} {l l' l'' : Lexer} (h : Passes cs l l')
    (h' : Passes ds l' l'') : Passes (cs ++ ds) l l'' := by
  obtain ⟨m, hm, steps⟩ := h
  obtain ⟨n, hn, steps'⟩ := h'
  exact ⟨m + n, by rw [List.length_append]; omega, steps.trans steps'⟩

theorem Passes.refl (cs : List Char) (l : Lexer) : Passes cs l l := ⟨0, Nat.zero_le _, .refl l⟩

theorem Passes.of_step {c : Char} {cs : List Char} {l l' : Lexer} (h : l.step = some (false, l')) :
    Passes (c :: cs) l l' :=
  ⟨1, Nat.succ_le_succ (Nat.zero_le _), .step h (.refl l')⟩

/-- At the beginning of a line, where no key is pending.  `first` says whether this is the first
line, in front of which no block has been opened. -/
def lineStart (first : Bool) (place : Place) (reversed : List Token) (cs : List Char) : Lexer :=
  ⟨cs, place, reversed, true, if first then -1 else 0, if first then [] else [-1], none, []⟩

/-- The next token begins a line that starts with `cs`. -/
def AtLine (first : Bool) (reversed : List Token) (cs : List Char) (l : Lexer) : Prop :=
  ∃ place : Place, place.column = 0 ∧
    l.skipToToken.dropStale = some (lineStart first place reversed cs)

/-- Within a line of the mapping, behind a key or a dash. -/
def within (keyAllowed : Bool) (place : Place) (reversed : List Token) (cs : List Char) : Lexer :=
  ⟨cs, place, reversed, keyAllowed, 0, [-1], none, []⟩

section Gaps

variable {inFlow keyAllowed : Bool} {place : Place} {rest : List Char}

theorem skipGap_space :
    skipGap inFlow false keyAllowed place (' ' :: rest)
      = skipGap inFlow false keyAllowed (place.advance 1) rest := by
  simp [skipGap, isBreak, byteOrderMark]

/-- Outside brackets a key may begin behind a line feed. -/
theorem skipGap_lineFeed :
    skipGap false false keyAllowed place ('\n' :: rest)
      = skipGap false false true (place.newLine 1) rest := by
  simp [skipGap, isBreak, isHalfBreak]

theorem skipGap_stop {c : Char} (blank : isGapBlank c = false) (noBreak : isBreak c = false)
    (comment : c ≠ '#') (mark : c ≠ byteOrderMark ∨ 0 < place.column) :
    skipGap inFlow false keyAllowed place (c :: rest) = (keyAllowed, place, c :: rest) := by
  simp only [isGapBlank, Bool.or_eq_false_iff, beq_eq_false_iff_ne] at blank
  have noMark : ¬(c = byteOrderMark ∧ place.column = 0) := by
    rintro ⟨rfl, h⟩
    rcases mark with mark | mark
    · exact mark rfl
    · omega
  simp [skipGap, noBreak, noMark, blank, comment]

theorem skipGap_startsLine {cs : List Char} (h : startsLine cs) :
    skipGap inFlow false keyAllowed place cs = (keyAllowed, place, cs) := by
  cases cs with
  | nil => rfl
  | cons c rest =>
    obtain ⟨blank, noBreak⟩ := of_startsLine h
    refine skipGap_stop blank noBreak ?_ (.inl ?_)
    · rintro rfl
      cases h
    · rintro rfl
      cases h

/-- What a lexer is when the gap in front of it is known. -/
theorem skipToToken_eq {l : Lexer}
    (h : skipGap l.inFlow false l.keyAllowed l.place l.rest = (keyAllowed, place, rest)) :
    l.skipToToken = { l with keyAllowed := keyAllowed, place := place, rest := rest } := by
  rw [skipToToken, h]

end Gaps

/-- What may have been a key is none any more in a later line. -/
theorem refresh_later {place : Place} {k : Option KeyStart}
    (h : ∀ key ∈ k, key.required = false ∧ key.place.line < place.line) :
    refresh place k = some none := by
  cases k with
  | none => rfl
  | some key =>
    obtain ⟨optional, earlier⟩ := h key rfl
    simp [refresh, isStale, optional, earlier]

/-- Behind a scalar that took the end of its line with it. -/
theorem atLine_of_newLine {l : Lexer} (hm : startsLine l.rest) (column : l.place.column = 0)
    (allowed : l.keyAllowed) (indent : l.indent = 0) (outer : l.outer = [-1])
    (block : l.outerKeys = [])
    (pending : ∀ key ∈ l.keyStart, key.required = false ∧ key.place.line < l.place.line) :
    AtLine false l.reversed l.rest l := by
  refine ⟨l.place, column, ?_⟩
  have skipped : l.skipToToken = l := skipToToken_eq (skipGap_startsLine hm)
  rw [skipped, dropStale, refresh_later pending, block]
  rcases l with ⟨rest, place, reversed, keyAllowed, l_indent, l_outer, keyStart, outerKeys⟩
  cases indent
  cases outer
  cases block
  cases allowed
  rfl

/-- In front of the line feed that ends a line. -/
theorem atLine_of_lineFeed {l : Lexer} {more : List Char} (rest : l.rest = '\n' :: more)
    (hm : startsLine more) (indent : l.indent = 0) (outer : l.outer = [-1])
    (block : l.outerKeys = [])
    (pending : ∀ key ∈ l.keyStart, key.required = false ∧ key.place.line ≤ l.place.line) :
    AtLine false l.reversed more l := by
  refine ⟨l.place.newLine 1, rfl, ?_⟩
  have gap : skipGap l.inFlow false l.keyAllowed l.place l.rest
      = (true, l.place.newLine 1, more) := by
    rw [inFlow, block, rest]
    exact skipGap_lineFeed.trans (skipGap_startsLine hm)
  rw [skipToToken_eq gap, dropStale, block]
  dsimp only
  rw [refresh_later fun key hk => ⟨(pending key hk).1, Nat.lt_succ_of_le (pending key hk).2⟩,
    indent, outer]
  rfl

/-! ## §3. The steps of an entry. -/

section Entry

variable {keyAllowed : Bool} {place : Place} {reversed : List Token} {rest more : List Char}

/-- Behind a key or a dash the next step is that of the token behind the space. -/
theorem step_within {c : Char} (blank : isGapBlank c = false) (noBreak : isBreak c = false)
    (comment : c ≠ '#') :
    (within keyAllowed place reversed (' ' :: c :: rest)).step
      = ((within keyAllowed (place.advance 1) reversed (c :: rest)).token c rest).map
          (false, ·) := by
  have gap : skipGap false false keyAllowed place (' ' :: c :: rest)
      = (keyAllowed, place.advance 1, c :: rest) :=
    skipGap_space.trans (skipGap_stop blank noBreak comment (.inr (Nat.succ_pos _)))
  have column : ¬((place.advance 1).column : Int) < 0 := by omega
  have skipped : (within keyAllowed place reversed (' ' :: c :: rest)).skipToToken
      = within keyAllowed (place.advance 1) reversed (c :: rest) := skipToToken_eq gap
  rw [step, skipped]
  simp [dropStale, refresh, within, unindent, inFlow, closeBlocks, column]

theorem noteKey_within (inLine : 0 < place.column) :
    (within keyAllowed place reversed rest).noteKey
      = some { within keyAllowed place reversed rest with
          keyStart := if keyAllowed then some ⟨false, reversed.length, place⟩ else none } := by
  have deeper : ((0 : Int) == (place.column : Int)) = false := by
    rw [beq_eq_false_iff_ne]
    omega
  cases keyAllowed with
  | true => simp [noteKey, within, inFlow, forgetKey, deeper]
  | false => rfl

/-- No key that was noted behind the beginning of a line is required. -/
theorem pending_of_noteKey {key : KeyStart}
    (h : key ∈ if keyAllowed then some (⟨false, reversed.length, place⟩ : KeyStart) else none) :
    key.required = false ∧ key.place = place := by
  cases keyAllowed with
  | true =>
    cases h
    exact ⟨rfl, rfl⟩
  | false => cases h

theorem pending_le {behind : Place} (later : place.line ≤ behind.line) :
    ∀ key ∈ if keyAllowed then some (⟨false, reversed.length, place⟩ : KeyStart) else none,
      key.required = false ∧ key.place.line ≤ behind.line := by
  intro key hk
  obtain ⟨optional, rfl⟩ := pending_of_noteKey hk
  exact ⟨optional, later⟩

/-- At the end of a line a word ends as it does at the end of a text. -/
theorem endsWord_lineFeed (cs tail : List Char) : endsWord (cs ++ '\n' :: tail) = endsWord cs := by
  cases cs with
  | nil => rfl
  | cons c cs => rfl

theorem head?_any_isGapBlank {cs : List Char} (h : endsWord cs = false) :
    cs.head?.any isGapBlank = false := by
  cases cs with
  | nil => rfl
  | cons c cs =>
    rw [endsWord, Bool.or_eq_false_iff] at h
    exact h.1

/-- Where a plain text may begin no other token does. -/
theorem token_plain {c : Char} (printable : isPrintable c) (edge : Survey.isEdgeGap c = false)
    (lead : Survey.leadsWithIndicator (c :: rest) = false) (tail : List Char)
    (inLine : 0 < place.column) :
    (within keyAllowed place reversed (c :: (rest ++ '\n' :: tail))).token c (rest ++ '\n' :: tail)
      = (within keyAllowed place reversed (c :: (rest ++ '\n' :: tail))).plainScalar := by
  have column : place.column ≠ 0 := Nat.ne_of_gt inLine
  have word := endsWord_lineFeed rest tail
  simp only [Survey.leadsWithIndicator, Bool.or_eq_false_iff, Bool.and_eq_false_imp,
    List.contains_eq_mem, decide_eq_false_iff_not, decide_eq_true_eq] at lead
  obtain ⟨other, special⟩ := lead
  -- The three signs that may begin a text are tokens of their own only where a word ends.
  have sign : c ∈ "?:-".toList → endsWord (rest ++ '\n' :: tail) = false := fun h =>
    word.trans (special h)
  have blank : isGapBlank c = false := (of_isEdgeGap printable edge).1
  have starts : startsPlain false c (rest ++ '\n' :: tail) := by
    by_cases h : c ∈ "?:-".toList
    · have inner := sign h
      simp only [startsPlain, Bool.or_eq_true]
      simp at h
      rcases h with rfl | rfl | rfl
      · simp [inner]
      · simp [inner]
      · exact .inl (.inr (by rw [head?_any_isGapBlank inner]; rfl))
    · have noIndicator : isIndicator c = false := by
        simp at h other
        simp [isIndicator, h, other]
      simp [startsPlain, noIndicator, blank]
  have noWord : ∀ d ∈ "?:-".toList, ¬(c = d ∧ endsWord (rest ++ '\n' :: tail)) := by
    rintro d hd ⟨rfl, h⟩
    rw [sign hd] at h
    cases h
  simp at other
  rw [Lexer.token]
  simp only [column, false_and, if_false, other, starts, within, inFlow, List.isEmpty_nil,
    Bool.not_true, Bool.false_eq_true, false_or, and_true, if_true]
  rw [if_neg (noWord '-' (by decide)), if_neg (noWord '?' (by decide)),
    if_neg (noWord ':' (by decide))]

/-- A plain text is read with its line. -/
theorem step_plain {cs : List Char} (nonempty : cs ≠ []) (allowed : Survey.allowsPlain cs)
    (hm : startsLine more) :
    ∃ l, (within keyAllowed place reversed (' ' :: (cs ++ '\n' :: more))).step = some (false, l) ∧
      AtLine false (.scalar .plain cs :: reversed) more l := by
  have read := Plain.readFrom_line allowed hm (place.advance 1)
  obtain ⟨c, rest, rfl⟩ := List.exists_cons_of_ne_nil nonempty
  have found := allowed
  simp only [Survey.allowsPlain, Survey.isClean, Bool.and_eq_true, List.all_cons, List.head?_cons,
    Option.any_some, Bool.not_eq_true', Survey.hasIndicators, Bool.or_eq_false_iff] at found
  obtain ⟨⟨⟨⟨⟨printable, -⟩, -⟩, edge⟩, -⟩, ⟨-, lead⟩, -⟩ := found
  obtain ⟨blank, noBreak⟩ := of_isEdgeGap printable edge
  have comment : c ≠ '#' := by
    rintro rfl
    simp [Survey.leadsWithIndicator] at lead
  rw [List.cons_append, step_within blank noBreak comment,
    token_plain printable edge lead more (Nat.succ_pos _), plainScalar,
    noteKey_within (Nat.succ_pos _)]
  simp only [Option.bind_eq_bind, Option.bind_some, within, inFlow, List.isEmpty_nil, Bool.not_true,
    Int.zero_add]
  rw [← List.cons_append, read]
  refine ⟨_, rfl, atLine_of_newLine hm rfl rfl rfl rfl rfl fun key hk => ?_⟩
  obtain ⟨optional, same⟩ := pending_of_noteKey hk
  exact ⟨optional, by rw [same]; exact Nat.lt_succ_self _⟩

/-- A quoted text is read up to the end of its line. -/
theorem step_quoted {quote : Char} {style : Style} {cs body : List Char} (hm : startsLine more)
    (quoted : quote = '\'' ∧ style = .singleQuoted ∨ quote = '"' ∧ style = .doubleQuoted)
    (read : ∃ behind : Place, place.line ≤ behind.line ∧
      Quoted.readFrom (style == .doubleQuoted) ((place.advance 1).advance 1) .closed [] body
        = some ⟨cs, behind, '\n' :: more, false⟩) :
    ∃ l, (within keyAllowed place reversed (' ' :: quote :: body)).step = some (false, l) ∧
      AtLine false (.scalar style cs :: reversed) more l := by
  obtain ⟨behind, later, read⟩ := read
  have token : (within keyAllowed (place.advance 1) reversed (quote :: body)).token quote body
      = (within keyAllowed (place.advance 1) reversed (quote :: body)).quotedScalar style := by
    rcases quoted with ⟨rfl, rfl⟩ | ⟨rfl, rfl⟩ <;>
      simp [Lexer.token, within, inFlow, Place.advance]
  have plainly : isGapBlank quote = false ∧ isBreak quote = false ∧ quote ≠ '#' := by
    rcases quoted with ⟨rfl, -⟩ | ⟨rfl, -⟩ <;> decide
  rw [step_within plainly.1 plainly.2.1 plainly.2.2, token, quotedScalar,
    noteKey_within (Nat.succ_pos _)]
  simp only [Option.bind_eq_bind, Option.bind_some, within, List.drop_succ_cons, List.drop_zero,
    read]
  exact ⟨_, rfl, atLine_of_lineFeed rfl hm rfl rfl rfl (pending_le later)⟩

/-- A literal block is read up to the next entry. -/
theorem step_literal {cs : List Char} (allowed : Survey.allowsLiteral cs) (hm : startsLine more) :
    ∃ l, (within keyAllowed place reversed
        (' ' :: (Printer.literal cs ++ (Block.closing cs ++ more)))).step = some (false, l) ∧
      AtLine false (.scalar .literal cs :: reversed) more l := by
  obtain ⟨behind, column, later, read⟩ :=
    Block.read_literal allowed hm ((place.advance 1).advance 1)
  have written : Printer.literal cs ++ (Block.closing cs ++ more)
      = '|' :: (Printer.literalHints cs ++
          '\n' :: (Printer.indented true cs ++ (Block.closing cs ++ more))) := by
    simp [Printer.literal]
  rw [written, step_within rfl rfl (by decide)]
  have token : ∀ rest, (within keyAllowed (place.advance 1) reversed ('|' :: rest)).token '|' rest
      = (within keyAllowed (place.advance 1) reversed ('|' :: rest)).blockScalar .literal := by
    intro rest
    simp [Lexer.token, within, inFlow, Place.advance]
  rw [token, blockScalar]
  simp only [Option.bind_eq_bind, Option.bind_some, within, forgetKey, List.drop_succ_cons,
    List.drop_zero]
  rw [show (Style.literal == Style.literal) = true from rfl, read]
  exact ⟨_, rfl, atLine_of_newLine hm column rfl rfl rfl rfl fun _ none => by cases none⟩

/-- **A text is read as it was written**, up to the next line that is not part of it. -/
theorem step_text (s : String) (hm : startsLine more) :
    ∃ l, (within keyAllowed place reversed
        (' ' :: (Printer.closeLine (Printer.scalar s) ++ more))).step = some (false, l) ∧
      AtLine false (textToken s :: reversed) more l := by
  unfold textToken Printer.scalar
  have h := written_ofText s.toList
  generalize Style.ofText s.toList = style at h
  cases h with
  | plain text allowed =>
    have nonempty : s.toList ≠ [] := by
      intro empty
      rw [empty] at text
      cases text
    have last : s.toList.getLast?.any isBreak = false :=
      (Option.any_eq_false _ _).2 fun c hc => by
        simp [((Plain.of_allowsPlain allowed).1 c (List.mem_of_getLast? hc)).2]
    rw [Printer.closeLine_of_text last, List.append_assoc]
    exact step_plain nonempty allowed hm
  | singleQuoted oneLine allowed =>
    have last : (Printer.singleQuoted s.toList).getLast?.any isBreak = false := by
      rw [Printer.singleQuoted, List.getLast?_concat]
      rfl
    rw [Printer.closeLine_of_text last, Printer.singleQuoted]
    simp only [List.cons_append, List.append_assoc, List.nil_append]
    exact step_quoted hm (.inl ⟨rfl, rfl⟩) (Quoted.readFrom_singleQuotes allowed oneLine
      (show 0 < ((place.advance 1).advance 1).column from Nat.succ_pos _)
      (show ('\n' :: more).head? ≠ some '\'' by simp))
  | literal allowed =>
    have nonempty : s.toList ≠ [] := by
      intro empty
      rw [empty] at allowed
      cases allowed
    rw [Printer.closeLine_literal nonempty, List.append_assoc]
    exact step_literal allowed hm
  | doubleQuoted =>
    have last : (Printer.doubleQuoted s.toList).getLast?.any isBreak = false := by
      rw [Printer.doubleQuoted, List.getLast?_concat]
      rfl
    rw [Printer.closeLine_of_text last, Printer.doubleQuoted]
    simp only [List.cons_append, List.append_assoc, List.nil_append]
    exact step_quoted hm (.inr ⟨rfl, rfl⟩) (Quoted.readFrom_doubleQuotes s.toList
      (show 0 < ((place.advance 1).advance 1).column from Nat.succ_pos _) ('\n' :: more))

theorem unindent_lineStart {first : Bool} (column : place.column = 0) :
    (lineStart first place reversed rest).unindent place.column
      = lineStart first place reversed rest := by
  cases first <;> simp [unindent, lineStart, inFlow, closeBlocks, column]

/-- At the beginning of a line the next step is that of the token there. -/
theorem step_atLine {first : Bool} {c : Char} {l : Lexer}
    (h : AtLine first reversed (c :: rest) l) :
    ∃ place : Place, place.column = 0 ∧
      l.step = ((lineStart first place reversed (c :: rest)).token c rest).map (false, ·) := by
  obtain ⟨place, column, ready⟩ := h
  refine ⟨place, column, ?_⟩
  rw [step, ready]
  simp only [Option.bind_eq_bind, Option.bind_some]
  rw [show (lineStart first place reversed (c :: rest)).place = place from rfl,
    unindent_lineStart column]
  rfl

/-- **A dash is an item of the list.** -/
theorem step_dash {l : Lexer} (h : AtLine false reversed ('-' :: ' ' :: rest) l) :
    ∃ place, l.step = some (false, within true place (.blockEntry :: reversed) (' ' :: rest)) := by
  obtain ⟨place, column, step⟩ := step_atLine h
  refine ⟨place.advance 1, ?_⟩
  have token : (lineStart false place reversed ('-' :: ' ' :: rest)).token '-' (' ' :: rest)
      = (lineStart false place reversed ('-' :: ' ' :: rest)).blockEntry := by
    simp [Lexer.token, lineStart, isDocumentMark, endsWord, isGapBlank]
  rw [step, token]
  simp [blockEntry, lineStart, inFlow, openBlockHere, openBlock, forgetKey, column, within,
    advance, emit]

end Entry

/-- The block that the first key opens. -/
def opening (first : Bool) : List Token := if first then [.blockMappingStart] else []

/-- A name at the beginning of a line may be a key. -/
theorem step_name {first : Bool} {name rest : List Char} {reversed : List Token} {l : Lexer}
    (h : AtLine first reversed (name ++ ':' :: rest) l) (hn : Printer.isName name)
    (hr : endsWord rest) :
    ∃ (place : Place) (required : Bool), place.column = 0 ∧ l.step = some (false,
      { lineStart first (place.advance name.length) (.scalar .plain name :: reversed) (':' :: rest)
        with keyAllowed := false, keyStart := some ⟨required, reversed.length, place⟩ }) := by
  simp only [Printer.isName, Bool.and_eq_true, Bool.not_eq_true', List.isEmpty_eq_false_iff] at hn
  obtain ⟨⟨nonempty, chars⟩, -⟩ := hn
  obtain ⟨c, name, rfl⟩ := List.exists_cons_of_ne_nil nonempty
  rw [List.cons_append] at h
  obtain ⟨place, column, step⟩ := step_atLine h
  refine ⟨place, !first, column, ?_⟩
  have letter : isNameChar c := List.all_eq_true.1 chars c List.mem_cons_self
  have token : (lineStart first place reversed (c :: (name ++ ':' :: rest))).token c
        (name ++ ':' :: rest)
      = (lineStart first place reversed (c :: (name ++ ':' :: rest))).plainScalar := by
    obtain ⟨-, noIndicator, blank, -⟩ := isNameChar_plain letter
    have starts : startsPlain false c (name ++ ':' :: rest) := by
      simp [startsPlain, noIndicator, blank]
    have point : c ≠ '.' := by
      rintro rfl
      cases letter
    simp [isIndicator] at noIndicator
    simp [Lexer.token, isDocumentMark, lineStart, inFlow, noIndicator, point, starts]
  have shallow : (if first then -1 else 0 : Int) + 1 ≤ 1 := by cases first <;> decide
  have read := @Plain.readFrom_name ⟨false, (if first then -1 else 0) + 1⟩ rfl shallow _ _ chars hr
    place
  rw [List.cons_append] at read
  have noted : (lineStart first place reversed (c :: (name ++ ':' :: rest))).noteKey
      = some { lineStart first place reversed (c :: (name ++ ':' :: rest)) with
          keyStart := some ⟨!first, reversed.length, place⟩ } := by
    cases first <;> simp [noteKey, lineStart, inFlow, forgetKey, column]
  rw [step, token, plainScalar, noted]
  simp only [Option.bind_eq_bind, Option.bind_some, lineStart, inFlow, List.isEmpty_nil,
    Bool.not_true, read]
  rfl

/-- The colon makes a key of the name in front of it, and the first key opens the mapping. -/
theorem step_colon {first required : Bool} {place : Place} {n : Nat} {name rest : List Char}
    {reversed : List Token} (near : n ≤ 1024) (column : place.column = 0) (hr : endsWord rest) :
    ∃ behind, step
        { lineStart first (place.advance n) (.scalar .plain name :: reversed) (':' :: rest) with
          keyAllowed := false, keyStart := some ⟨required, reversed.length, place⟩ }
      = some (false, within false behind
          (.value :: .scalar .plain name :: .key :: (opening first ++ reversed)) rest) := by
  refine ⟨(place.advance n).advance 1, ?_⟩
  have fresh : isStale (place.advance n) ⟨required, reversed.length, place⟩ = false := by
    simp [isStale, Place.advance, near]
  have inBlock : ¬(((place.advance n).column : Int) < 0) := by omega
  -- The token of the key, and in front of it that of the block, are put before the name.
  have one : reversed.length + 1 - reversed.length = 1 := by omega
  have two : 1 + (reversed.length + 1) - reversed.length = 2 := by omega
  rw [step, skipToToken_eq (skipGap_stop rfl rfl (by decide) (.inl (by decide)))]
  cases first with
  | false =>
    simp [dropStale, refresh, fresh, lineStart, unindent, inFlow, closeBlocks, inBlock, Lexer.token,
      isDocumentMark, hr, valueMark, emitAt, openBlock, one, column, advance, emit, within, opening]
  | true =>
    simp [dropStale, refresh, fresh, lineStart, unindent, inFlow, closeBlocks, Lexer.token,
      isDocumentMark, hr, valueMark, emitAt, openBlock, one, two, column, advance, emit, within,
      opening]

/-- **A name and its colon are a key.** -/
theorem passes_key {first : Bool} {name rest : List Char} {reversed : List Token} {l : Lexer}
    (h : AtLine first reversed (name ++ ':' :: rest) l) (hn : Printer.isName name)
    (hr : endsWord rest) :
    ∃ place, Passes (name ++ [':']) l (within false place
      (.value :: .scalar .plain name :: .key :: (opening first ++ reversed)) rest) := by
  obtain ⟨place, required, column, named⟩ := step_name h hn hr
  simp only [Printer.isName, Bool.and_eq_true, Bool.not_eq_true', List.isEmpty_eq_false_iff,
    decide_eq_true_eq] at hn
  obtain ⟨⟨nonempty, -⟩, short⟩ := hn
  obtain ⟨behind, colon⟩ := @step_colon first required place _ name rest reversed short column hr
  have letters : 0 < name.length := List.length_pos_iff.2 nonempty
  refine ⟨behind, 2, ?_, .step named (.step colon (.refl _))⟩
  rw [List.length_append, List.length_singleton]
  omega

/-! ## §4. Values, entries and documents. -/

section Values

variable {place : Place} {reversed : List Token} {more : List Char} {l : Lexer}

/-- A dash and a text are an item. -/
theorem passes_item (s : String) (hm : startsLine more)
    (h : AtLine false reversed (Printer.itemText s ++ more) l) :
    ∃ l', Passes (Printer.itemText s) l l' ∧
      AtLine false (textToken s :: .blockEntry :: reversed) more l' := by
  obtain ⟨place, dash⟩ := step_dash h
  obtain ⟨l', text, line⟩ := @step_text true place (.blockEntry :: reversed) more s hm
  exact ⟨l', (Passes.of_step dash : Passes ['-'] _ _).append (Passes.of_step text), line⟩

/-- **Line by line the items of a list are read.** -/
theorem passes_items (items : List String) (hm : startsLine more)
    (h : AtLine false reversed (items.flatMap Printer.itemText ++ more) l) :
    ∃ l', Passes (items.flatMap Printer.itemText) l l' ∧
      AtLine false ((items.flatMap fun s => [.blockEntry, textToken s]).reverse ++ reversed) more
        l' := by
  induction items generalizing reversed l with
  | nil => exact ⟨l, .refl _ l, h⟩
  | cons s items ih =>
    rw [List.flatMap_cons, List.append_assoc] at h
    obtain ⟨l', first, line⟩ := passes_item s (Printer.startsLine_items items hm) h
    obtain ⟨l'', others, line'⟩ := ih line
    refine ⟨l'', first.append others, ?_⟩
    rw [List.flatMap_cons, List.reverse_append, List.append_assoc]
    exact line'

/-- Two brackets are an empty list. -/
theorem passes_brackets (hm : startsLine more) :
    ∃ l', Passes " []\n".toList (within false place reversed (" []\n".toList ++ more)) l' ∧
      AtLine false (.flowSequenceEnd :: .flowSequenceStart :: reversed) more l' := by
  -- Between the brackets the lexer is in a flow collection, and behind them in the line again.
  let inside : Lexer := ⟨']' :: '\n' :: more, (place.advance 1).advance 1,
    .flowSequenceStart :: reversed, true, 0, [-1], none, [none]⟩
  let behind : Lexer := ⟨'\n' :: more, ((place.advance 1).advance 1).advance 1,
    .flowSequenceEnd :: .flowSequenceStart :: reversed, false, 0, [-1], none, []⟩
  have opens : (within false place reversed (' ' :: '[' :: ']' :: '\n' :: more)).step
      = some (false, inside) := by
    rw [step_within rfl rfl (by decide)]
    simp [Lexer.token, within, isDocumentMark, openFlow, noteKey, advance, emit, inside]
  have closes : inside.step = some (false, behind) := by
    rw [step, skipToToken_eq (skipGap_stop rfl rfl (by decide) (.inl (by decide)))]
    simp [inside, dropStale, refresh, unindent, inFlow, Lexer.token, isDocumentMark, closeFlow,
      forgetKey, advance, emit, behind]
  refine ⟨behind, ⟨2, by decide, .step opens (.step closes (.refl _))⟩, ?_⟩
  exact atLine_of_lineFeed rfl hm rfl rfl rfl fun _ none => by cases none

/-- **A value is read as it was written.** -/
theorem passes_value (value : Value) (hm : startsLine more) :
    ∃ l', Passes (Printer.valueText value)
        (within false place reversed (Printer.valueText value ++ more)) l' ∧
      AtLine false (value.tokens.reverse ++ reversed) more l' := by
  cases value with
  | null =>
    obtain ⟨l', step, line⟩ := @step_plain false place reversed more "null".toList (by decide)
      (by decide) hm
    exact ⟨l', .of_step step, line⟩
  | text s =>
    obtain ⟨l', step, line⟩ := @step_text false place reversed more s hm
    exact ⟨l', .of_step step, line⟩
  | list items =>
    cases items with
    | nil => exact passes_brackets hm
    | cons s items =>
      have line : AtLine false reversed ((s :: items).flatMap Printer.itemText ++ more)
          (within false place reversed (Printer.valueText (.list (s :: items)) ++ more)) :=
        atLine_of_lineFeed rfl (Printer.startsLine_items (s :: items) hm) rfl rfl rfl
          fun _ none => by cases none
      obtain ⟨l', passes, line'⟩ := passes_items (s :: items) hm line
      exact ⟨l', (Passes.refl ['\n'] _).append passes, line'⟩

/-- **An entry is read as it was written.** -/
theorem passes_entry {first : Bool} {key : String} (value : Value) (hn : Printer.isName key.toList)
    (hm : startsLine more) (h : AtLine first reversed (Printer.entry key value ++ more) l) :
    ∃ l', Passes (Printer.entry key value) l l' ∧
      AtLine false ((entryTokens key value).reverse ++ (opening first ++ reversed)) more l' := by
  rw [Printer.entry_eq, List.append_assoc, List.append_assoc, List.singleton_append] at h
  obtain ⟨place, named⟩ := passes_key h hn (Printer.endsWord_valueText value more)
  obtain ⟨l', valued, line⟩ := @passes_value place
    (.value :: .scalar .plain key.toList :: .key :: (opening first ++ reversed)) more value hm
  refine ⟨l', ?_, ?_⟩
  · rw [Printer.entry_eq]
    exact named.append valued
  · simpa [entryTokens] using line

/-- **Entry by entry a mapping is read.** -/
theorem passes_entries {entries : List (String × Value)}
    (names : ∀ e ∈ entries, Printer.isName e.1.toList)
    (h : AtLine false reversed (Printer.entriesText entries) l) :
    ∃ l', Passes (Printer.entriesText entries) l l' ∧
      AtLine false ((entriesTokens entries).reverse ++ reversed) [] l' := by
  induction entries generalizing reversed l with
  | nil => exact ⟨l, .refl _ l, h⟩
  | cons e entries ih =>
    have others := fun d hd => names d (List.mem_cons_of_mem _ hd)
    obtain ⟨l', passes, line⟩ := passes_entry e.2 (names e List.mem_cons_self)
      (Printer.startsLine_entries others) h
    obtain ⟨l'', passes', line'⟩ := ih others line
    refine ⟨l'', passes.append passes', ?_⟩
    rw [entriesTokens, List.reverse_append, List.append_assoc]
    exact line'

/-- At the end of the text the mapping ends, and the stream. -/
theorem step_end (h : AtLine false reversed [] l) :
    ∃ l', l.step = some (true, l') ∧ l'.reversed = .streamEnd :: .blockEnd :: reversed := by
  obtain ⟨place, column, ready⟩ := h
  rw [step, ready]
  simp only [Option.bind_eq_bind, Option.bind_some]
  rw [show (lineStart false place reversed []).place = place from rfl, unindent_lineStart column]
  exact ⟨_, rfl, rfl⟩

end Values

end Lexer

/-! ## §5. The whole text. -/

/-- **The tokens of a printed mapping** are those of its entries. -/
theorem tokens?_document {entries : List (String × Value)} (nonempty : entries ≠ [])
    (names : ∀ e ∈ entries, Printer.isName e.1.toList) :
    tokens? (Printer.document entries).toList = some (documentTokens entries) := by
  have readable := Printer.isReadable_entriesText names
  have written : (Printer.document entries).toList = Printer.entriesText entries :=
    String.toList_ofList
  rw [tokens?, written, if_pos readable]
  obtain ⟨e, entries, rfl⟩ := List.exists_cons_of_ne_nil nonempty
  have others := fun d hd => names d (List.mem_cons_of_mem _ hd)
  have start : Lexer.AtLine true [] (Printer.entriesText (e :: entries))
      (.start (Printer.entriesText (e :: entries))) := by
    refine ⟨.start, rfl, ?_⟩
    rw [Lexer.skipToToken_eq (Lexer.skipGap_startsLine (Printer.startsLine_entries names))]
    rfl
  obtain ⟨l, passes, line⟩ := Lexer.passes_entry e.2 (names e List.mem_cons_self)
    (Printer.startsLine_entries others) start
  obtain ⟨l', passes', line'⟩ := Lexer.passes_entries others line
  obtain ⟨l'', last, reversed⟩ := Lexer.step_end line'
  obtain ⟨n, few, steps⟩ := passes.append passes'
  -- The lexer is given a step for each character and one more, which is the end.
  have fuel : (Printer.entriesText (e :: entries)).length + 1
      = n + ((Printer.entriesText (e :: entries)).length - n + 1) := by
    have : n ≤ (Printer.entriesText (e :: entries)).length := few
    omega
  rw [fuel, steps.run, Lexer.run, last]
  simp [reversed, documentTokens, entriesTokens, Lexer.opening]

end ArtifactCourier.Yaml
