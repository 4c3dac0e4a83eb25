/-
  ArtifactCourier.Proofs.Yaml.Scalars
  ──────────────────────────────────────
  **Plain and quoted texts are read back.**

  The survey of a text finds out in which styles it can be written; here it is shown for
  every style but the literal one that the reader takes the whole text and nothing more.
  Each of these scalars is read character by character, so the steps of the reader come
  first, and the text follows by induction, from any gap on.

    • `Plain.readFrom_line` — a plain text is read to the end of its line,
    • `Plain.readFrom_name` — the name of a field to its colon,
    • `Quoted.readFrom_singleQuotes` — a text between single quotes, with its lines folded,
    • `Quoted.readEscape_escape` — an escape is read as the character it was written for,
    • `Quoted.readFrom_doubleQuotes` — a text between double quotes.
-/
import ArtifactCourier.Yaml.Printer
import ArtifactCourier.Yaml.Quoted
import Mathlib.Algebra.Order.Ring.Nat

namespace ArtifactCourier.Yaml

/-! ## §1. Characters that need no escape. -/

/-- What needs no escape may stand in a document. -/
theorem isReadable_of_isPrintable {c : Char} (h : isPrintable c) : isReadable c := by
  simp only [isPrintable, isReadable, Bool.or_eq_true, Bool.and_eq_true] at h ⊢
  grind

theorem ne_tab_of_isPrintable {c : Char} (h : isPrintable c) : c ≠ '\t' := by
  rintro rfl
  exact absurd h (by decide)

theorem ne_return_of_isPrintable {c : Char} (h : isPrintable c) : c ≠ '\r' := by
  rintro rfl
  exact absurd h (by decide)

/-- Of the blanks only the space needs no escape. -/
theorem isGapBlank_of_isPrintable {c : Char} (h : isPrintable c) : isGapBlank c = (c == ' ') := by
  simp [isGapBlank, ne_tab_of_isPrintable h]

/-- What is neither a space nor a break at the edge of a text is no white space. -/
theorem of_isEdgeGap {c : Char} (h : isPrintable c) (edge : Survey.isEdgeGap c = false) :
    isGapBlank c = false ∧ isBreak c = false := by
  rw [Survey.isEdgeGap, Bool.or_eq_false_iff] at edge
  exact ⟨(isGapBlank_of_isPrintable h).trans edge.1, edge.2⟩

/-- A line break that needs no escape is a line feed or one of the two separators. -/
theorem eq_lineFeed_or_separator {c : Char} (h : isPrintable c) (hb : isBreak c) :
    c = '\n' ∨ c = '\u2028' ∨ c = '\u2029' := by
  simp only [isBreak, Bool.or_eq_true, beq_iff_eq] at hb
  rcases hb with (((hv | hv) | hv) | hv) | hv
  · exact .inl (Char.ext hv)
  · exact absurd (Char.ext hv) (ne_return_of_isPrintable h)
  · have hc : c = '\u0085' := Char.ext hv
    subst hc
    exact absurd h (by decide)
  · exact .inr (.inl (Char.ext hv))
  · exact .inr (.inr (Char.ext hv))

/-- It is read as it is. -/
theorem normalBreak_of_isPrintable {c : Char} (h : isPrintable c) (hb : isBreak c) :
    normalBreak c = c := by
  rcases eq_lineFeed_or_separator h hb with rfl | rfl | rfl <;> rfl

/-- A line break is no blank. -/
theorem isGapBlank_of_isBreak {c : Char} (hb : isBreak c) : isGapBlank c = false := by
  rw [Bool.eq_false_iff]
  intro h
  simp only [isGapBlank, Bool.or_eq_true, beq_iff_eq] at h
  rcases h with rfl | rfl <;> exact absurd hb (by decide)

theorem isHalfBreak_of_isPrintable {c : Char} (h : isPrintable c) (rest : List Char) :
    isHalfBreak c rest = false := by
  simp [isHalfBreak, ne_return_of_isPrintable h]

theorem breakLength_of_isPrintable {c : Char} (h : isPrintable c) (rest : List Char) :
    breakLength c rest = 1 := by
  simp [breakLength, isHalfBreak_of_isPrintable h]

/-- The characters of the names of fields. -/
def isNameChar (c : Char) : Bool := ('a' ≤ c && c ≤ 'z') || c == '_'

/-- Whether an entry or an item may begin here, or the text ends. -/
def startsLine : List Char → Bool
  | [] => true
  | c :: _ => c == '-' || isNameChar c

/-- The characters of names have no meaning of their own. -/
theorem isNameChar_plain {c : Char} (h : isNameChar c) :
    isPrintable c ∧ isIndicator c = false ∧ isGapBlank c = false ∧ isBreak c = false := by
  -- Nothing above the small letters is such a character, and the rest is a table.
  have ascii : ∀ n < 123, isNameChar (Char.ofNat n) →
      isPrintable (Char.ofNat n) ∧ isIndicator (Char.ofNat n) = false ∧
        isGapBlank (Char.ofNat n) = false ∧ isBreak (Char.ofNat n) = false := by
    decide +kernel
  have small : c.toNat < 123 := by
    simp only [isNameChar, Bool.or_eq_true, Bool.and_eq_true, decide_eq_true_eq, beq_iff_eq] at h
    rcases h with ⟨-, h⟩ | rfl
    · exact Nat.lt_succ_of_le h
    · decide
  have := ascii c.toNat small
  rw [Char.ofNat_toNat] at this
  exact this h

theorem of_startsLine {c : Char} {rest : List Char} (h : startsLine (c :: rest)) :
    isGapBlank c = false ∧ isBreak c = false := by
  simp only [startsLine, Bool.or_eq_true, beq_iff_eq] at h
  rcases h with rfl | h
  · decide
  · exact (isNameChar_plain h).2.2

/-- There is nothing in a name that would end it. -/
theorem hasInnerIndicator_name {name : List Char} (h : ∀ c ∈ name, isNameChar c)
    (afterGap : Bool) : Survey.hasInnerIndicator afterGap name = false := by
  induction name generalizing afterGap with
  | nil => rfl
  | cons c rest ih =>
    have hc := h c List.mem_cons_self
    have colon : c ≠ ':' := by
      rintro rfl
      exact absurd hc (by decide)
    have hash : c ≠ '#' := by
      rintro rfl
      exact absurd hc (by decide)
    simp [Survey.hasInnerIndicator, colon, hash, ih fun d hd => h d (List.mem_cons_of_mem _ hd)]

/-! ## §2. Blanks between words. -/

namespace Gap

@[simp] theorem isMultiLine_closed : closed.isMultiLine = false := rfl

/-- Blanks in one line are read as they are. -/
theorem reversedText_addBlank {gap : Gap} (h : gap.isMultiLine = false) (c : Char) :
    (gap.addBlank c).reversedText = c :: gap.reversedText := by
  cases gap with
  | closed => rfl
  | blanks cs => rfl
  | lines first more => cases h

theorem isMultiLine_addBlank (gap : Gap) (c : Char) :
    (gap.addBlank c).isMultiLine = gap.isMultiLine := by
  cases gap <;> rfl

theorem addBlank_ne_closed (gap : Gap) (c : Char) : gap.addBlank c ≠ closed := by
  cases gap <;> simp [addBlank]

end Gap

/-! ## §3. Plain texts. -/

theorem endsWord_append {cs : List Char} (h : cs ≠ []) (tail : List Char) :
    endsWord (cs ++ tail) = endsWord cs := by
  cases cs with
  | nil => exact absurd rfl h
  | cons c cs => rfl

namespace Plain

/-- Outside brackets the scalar goes on at a character that neither begins a comment nor ends
a key, if its line is indented. -/
theorem decide_take {ctx : Context} {place : Place} {gap : Gap} {c : Char} {rest : List Char}
    (flow : ctx.inFlow = false)
    (deep : gap = .closed ∨ (0 < place.column ∧ ctx.indent ≤ place.column))
    (comment : c = '#' → gap = .closed) (colon : c = ':' → endsWord rest = false) :
    decide ctx place gap c rest = .take := by
  -- Behind a gap a comment, a mark of the document or a shallow line would end the scalar.
  have stays : ¬(gap ≠ .closed ∧
      (c = '#' ∨ (place.column = 0 ∧ isDocumentIndicator (c :: rest)) ∨
        (ctx.inFlow = false ∧ (place.column : Int) < ctx.indent))) := by
    rintro ⟨hgap, h | ⟨h, -⟩ | ⟨-, h⟩⟩
    · exact hgap (comment h)
    · rcases deep with rfl | ⟨hcol, -⟩
      · exact hgap rfl
      · omega
    · rcases deep with rfl | ⟨-, hcol⟩
      · exact hgap rfl
      · omega
  have isWord : ¬(c = ':' ∧ endsWord rest) := fun h => by simp [colon h.1] at h
  rw [decide, if_neg stays, if_neg (by simp [flow]), if_neg isWord, if_neg (by simp [flow])]

section Steps

variable {ctx : Context} {place : Place} {gap : Gap} {acc : List Char} {c : Char}
  {rest : List Char}

theorem readFrom_space :
    readFrom ctx place gap acc (' ' :: rest)
      = readFrom ctx (place.advance 1) (gap.addBlank ' ') acc rest := by
  rw [readFrom, if_pos (by decide), if_neg (by simp)]

theorem readFrom_lineFeed :
    readFrom ctx place gap acc ('\n' :: rest)
      = readFrom ctx (place.newLine 1) (gap.addBreak '\n') acc rest := by
  rw [readFrom, if_neg (by decide), if_pos (by decide), if_neg (by simp [isHalfBreak])]
  rfl

theorem readFrom_take (blank : isGapBlank c = false) (noBreak : isBreak c = false)
    (h : decide ctx place gap c rest = .take) :
    readFrom ctx place gap acc (c :: rest)
      = readFrom ctx (place.advance 1) .closed (c :: (gap.reversedText ++ acc)) rest := by
  rw [readFrom, if_neg (by simp [blank]), if_neg (by simp [noBreak]), h]

theorem readFrom_stop (blank : isGapBlank c = false) (noBreak : isBreak c = false)
    (h : decide ctx place gap c rest = .stop) :
    readFrom ctx place gap acc (c :: rest)
      = some ⟨acc.reverse, place, c :: rest, gap.isMultiLine⟩ := by
  rw [readFrom, if_neg (by simp [blank]), if_neg (by simp [noBreak]), h]

end Steps

/-- **A text that allows it is taken whole**, whatever stands behind it. -/
theorem readFrom_text {ctx : Context} (flow : ctx.inFlow = false) (shallow : ctx.indent ≤ 1)
    {cs : List Char} (clean : ∀ c ∈ cs, isPrintable c ∧ isBreak c = false)
    (last : cs.getLast? ≠ some ' ') {place : Place} {gap : Gap} (oneLine : gap.isMultiLine = false)
    (deep : gap = .closed ∨ 0 < place.column)
    (inner : Survey.hasInnerIndicator (gap != .closed) cs = false)
    (closed : cs = [] → gap = .closed) (acc tail : List Char) :
    readFrom ctx place gap acc (cs ++ tail)
      = readFrom ctx (place.advance cs.length) .closed (cs.reverse ++ (gap.reversedText ++ acc))
          tail := by
  induction cs generalizing place gap acc with
  | nil =>
    rw [closed rfl]
    rfl
  | cons c rest ih =>
    obtain ⟨printable, noBreak⟩ := clean c List.mem_cons_self
    have cleanRest := fun d hd => clean d (List.mem_cons_of_mem _ hd)
    have lastRest : rest.getLast? ≠ some ' ' := by
      cases rest with
      | nil => simp
      | cons d ds => rwa [List.getLast?_cons_cons] at last
    have goesOn : (place.advance 1).advance rest.length = place.advance (c :: rest).length := by
      simp [Place.advance]
      omega
    rw [Survey.hasInnerIndicator, noBreak, Bool.or_false] at inner
    simp only [Bool.or_eq_false_iff, Bool.and_eq_false_iff, beq_eq_false_iff_ne] at inner
    obtain ⟨⟨colon, comment⟩, later⟩ := inner
    rw [List.cons_append, List.length_cons]
    by_cases blank : c = ' '
    · -- A space widens the gap: a word comes behind it, since a text ends in none.
      subst blank
      have more : rest ≠ [] := by
        rintro rfl
        exact last rfl
      have opened : (gap.addBlank ' ' != .closed) = true := by
        simpa using Gap.addBlank_ne_closed gap ' '
      rw [readFrom_space, ih cleanRest lastRest (by rwa [Gap.isMultiLine_addBlank])
        (.inr (Nat.succ_pos _)) (by rwa [opened]) (fun h => absurd h more),
        Gap.reversedText_addBlank oneLine, goesOn]
      simp
    · have word : isGapBlank c = false := by simp [isGapBlank_of_isPrintable printable, blank]
      have taken : decide ctx place gap c (rest ++ tail) = .take := by
        refine decide_take flow ?_ ?_ ?_
        · exact deep.imp_right fun h => ⟨h, by omega⟩
        · intro h
          simpa using comment.resolve_left fun n => n h
        · -- A colon ends no word of the text, and the text goes on behind it.
          intro h
          have := colon.resolve_left fun n => n h
          have more : rest ≠ [] := by
            rintro rfl
            cases this
          rwa [endsWord_append more]
      rw [readFrom_take word noBreak taken, ih cleanRest lastRest rfl (.inl rfl)
        (by rwa [word] at later) (fun _ => rfl), goesOn]
      simp

/-- What the survey of a plain text has found. -/
theorem of_allowsPlain {cs : List Char} (h : Survey.allowsPlain cs) :
    (∀ c ∈ cs, isPrintable c ∧ isBreak c = false) ∧ cs.getLast? ≠ some ' ' ∧
      Survey.hasInnerIndicator false cs = false := by
  simp only [Survey.allowsPlain, Survey.isClean, Bool.and_eq_true, List.all_eq_true,
    Bool.not_eq_true', List.any_eq_false, Bool.not_eq_true, Option.any_eq_false,
    Survey.hasIndicators, Bool.or_eq_false_iff] at h
  obtain ⟨⟨⟨⟨clean, noBreak⟩, -⟩, edge⟩, ⟨-, lead⟩, inner⟩ := h
  refine ⟨fun c hc => ⟨clean c hc, noBreak c hc⟩, fun hlast => ?_, ?_⟩
  · have := edge ' ' hlast
    simp [Survey.isEdgeGap] at this
  · cases cs with
    | nil => rfl
    | cons c rest =>
      simp only [Survey.leadsWithIndicator, Bool.or_eq_false_iff, Bool.and_eq_false_iff] at lead
      rw [Survey.hasInnerIndicator]
      simp only [Bool.and_false, Bool.or_false, Bool.or_eq_false_iff, Bool.and_eq_false_iff,
        beq_eq_false_iff_ne]
      refine ⟨?_, inner⟩
      refine lead.2.imp_left ?_
      rintro h rfl
      simp at h

/-- **A plain text is read to the end of its line.** -/
theorem readFrom_line {cs more : List Char} (h : Survey.allowsPlain cs) (hm : startsLine more)
    (place : Place) :
    readFrom ⟨false, 1⟩ place .closed [] (cs ++ '\n' :: more)
      = some ⟨cs, (place.advance cs.length).newLine 1, more, true⟩ := by
  obtain ⟨clean, last, inner⟩ := of_allowsPlain h
  rw [readFrom_text rfl (Int.le_refl 1) clean last rfl (.inl rfl) inner (fun _ => rfl),
    readFrom_lineFeed]
  cases more with
  | nil => simp [readFrom, Gap.addBreak, Gap.isMultiLine]
  | cons c rest =>
    obtain ⟨blank, noBreak⟩ := of_startsLine hm
    rw [readFrom_stop blank noBreak]
    · simp [Gap.addBreak, Gap.isMultiLine]
    · simp [decide, Gap.addBreak, Place.newLine]

/-- **The name of a field is read to its colon.** -/
theorem readFrom_name {ctx : Context} (flow : ctx.inFlow = false) (shallow : ctx.indent ≤ 1)
    {name tail : List Char} (h : name.all isNameChar) (ht : endsWord tail) (place : Place) :
    readFrom ctx place .closed [] (name ++ ':' :: tail)
      = some ⟨name, place.advance name.length, ':' :: tail, false⟩ := by
  rw [List.all_eq_true] at h
  have clean : ∀ c ∈ name, isPrintable c ∧ isBreak c = false := fun c hc =>
    ⟨(isNameChar_plain (h c hc)).1, (isNameChar_plain (h c hc)).2.2.2⟩
  have last : name.getLast? ≠ some ' ' := fun hl =>
    absurd (h ' ' (List.mem_of_getLast? hl)) (by decide)
  have stops : decide ctx (place.advance name.length) .closed ':' tail = .stop := by
    simp [decide, flow, ht]
  rw [readFrom_text flow shallow clean last rfl (.inl rfl) (hasInnerIndicator_name h _)
    (fun _ => rfl), readFrom_stop rfl rfl stops]
  simp

end Plain

/-! ## §4. Quoted texts. -/

namespace Quoted

section Steps

variable {double : Bool} {place : Place} {gap : Gap} {acc : List Char} {c : Char}
  {rest : List Char}

theorem readFrom_space :
    readFrom double place gap acc (' ' :: rest)
      = readFrom double (place.advance 1) (gap.addBlank ' ') acc rest := by
  rw [readFrom, if_pos (by decide)]

theorem readFrom_break (printable : isPrintable c) (isEnd : isBreak c) :
    readFrom double place gap acc (c :: rest)
      = readFrom double (place.newLine 1) (gap.addBreak c) acc rest := by
  rw [readFrom, if_neg (by simp [isGapBlank_of_isBreak isEnd]), if_pos isEnd,
    normalBreak_of_isPrintable printable isEnd, breakLength_of_isPrintable printable]
  rfl

/-- A character that is neither white space nor special is taken. -/
theorem readFrom_take (blank : isGapBlank c = false) (noBreak : isBreak c = false)
    (inLine : 0 < place.column) (single : double = false → c ≠ '\'')
    (special : double → c ≠ '"' ∧ c ≠ '\\') :
    readFrom double place gap acc (c :: rest)
      = readFrom double (place.advance 1) .closed (c :: (gap.reversedText ++ acc)) rest := by
  rw [readFrom, if_neg (by simp [blank]), if_neg (by simp [noBreak]),
    if_neg (fun h => by omega), if_neg (fun h => single h.1 h.2),
    if_neg (fun h => (special h.1).1 h.2), if_neg (fun h => (special h.1).2 h.2)]

/-- A single quote that is written twice is one. -/
theorem readFrom_doubledQuote (inLine : 0 < place.column) :
    readFrom false place gap acc ('\'' :: '\'' :: rest)
      = readFrom false (place.advance 2) .closed ('\'' :: (gap.reversedText ++ acc)) rest := by
  rw [readFrom, if_neg (by decide), if_neg (by decide), if_neg (fun h => by omega),
    if_pos ⟨rfl, rfl⟩, if_pos List.head?_cons]
  rfl

theorem readFrom_singleQuote (inLine : 0 < place.column) (h : rest.head? ≠ some '\'') :
    readFrom false place gap acc ('\'' :: rest)
      = some ⟨(gap.reversedText ++ acc).reverse, place.advance 1, rest, false⟩ := by
  rw [readFrom, if_neg (by decide), if_neg (by decide), if_neg (fun h => by omega),
    if_pos ⟨rfl, rfl⟩, if_neg h]

theorem readFrom_doubleQuote (inLine : 0 < place.column) :
    readFrom true place gap acc ('"' :: rest)
      = some ⟨(gap.reversedText ++ acc).reverse, place.advance 1, rest, false⟩ := by
  rw [readFrom, if_neg (by decide), if_neg (by decide), if_neg (fun h => by omega),
    if_neg (by simp), if_pos ⟨rfl, rfl⟩]

/-- An escape is taken for the character it stands for. -/
theorem readFrom_escape {letter e : Char} {digits : List Char} (inLine : 0 < place.column)
    (noBreak : isBreak letter = false)
    (h : readEscape (letter :: (digits ++ rest)) = some (e, digits.length + 1)) :
    readFrom true place gap acc ('\\' :: letter :: (digits ++ rest))
      = readFrom true (place.advance (digits.length + 2)) .closed (e :: (gap.reversedText ++ acc))
          rest := by
  rw [readFrom, if_neg (by decide), if_neg (by decide), if_neg (fun h => by omega),
    if_neg (by simp), if_neg (by simp), if_pos ⟨rfl, rfl⟩]
  simp only [noBreak, Bool.false_eq_true, if_false, h, List.drop_succ_cons, List.drop_left]
  congr 2
  omega

end Steps

/-! ### Between single quotes. -/

/-- What may lie between the last word and the rest of a text that allows single quotes: the
text stands in its line, or at the beginning of one behind separators.  Spaces and breaks are
never neighbours. -/
inductive Between (place : Place) (cs : List Char) : Gap → Prop
  | closed (inLine : 0 < place.column) : Between place cs .closed
  | blanks {spaces : List Char} (inLine : 0 < place.column) (h : cs.head?.any isBreak = false) :
      Between place cs (.blanks spaces)
  | lines {first : Char} {more : List Char} (feed : first ≠ '\n') (h : cs.head? ≠ some ' ') :
      Between place cs (.lines (some first) more)

theorem Between.reversedText_addBreak {place : Place} {c : Char} {cs : List Char} {gap : Gap}
    (h : Between place (c :: cs) gap) (isEnd : isBreak c) (feed : c ≠ '\n') :
    (gap.addBreak c).reversedText = c :: gap.reversedText := by
  cases h with
  | closed => simp [Gap.addBreak, Gap.reversedText, feed]
  | blanks _ h => simp [isEnd] at h
  | lines first => simp [Gap.addBreak, Gap.reversedText, first]

/-- The indentation in front of a line says nothing, and leads into the line. -/
theorem readFrom_indentation {place : Place} {cs : List Char} {gap : Gap}
    (h : Between place cs gap) (acc rest : List Char) :
    ∃ here : Place, here.line = place.line ∧ 0 < here.column ∧
      readFrom false place gap acc
          ((if gap.isMultiLine then Printer.indentation else []) ++ rest)
        = readFrom false here gap acc rest := by
  cases h with
  | closed inLine => exact ⟨place, rfl, inLine, rfl⟩
  | blanks inLine => exact ⟨place, rfl, inLine, rfl⟩
  | lines =>
    refine ⟨(place.advance 1).advance 1, rfl, Nat.succ_pos _, ?_⟩
    show readFrom false place _ acc (' ' :: ' ' :: rest) = _
    rw [readFrom_space, readFrom_space]
    rfl

/-- **A text between single quotes is read back**, from any gap on. -/
theorem readFrom_singleQuoted {cs : List Char} (clean : ∀ c ∈ cs, isPrintable c ∧ c ≠ '\n')
    (spaceBreak : Survey.hasSpaceBreak cs = false) (breakSpace : Survey.hasBreakSpace cs = false)
    {place : Place} {gap : Gap} (between : Between place cs gap) (acc : List Char)
    {tail : List Char} (ht : tail.head? ≠ some '\'') :
    ∃ behind : Place, place.line ≤ behind.line ∧
      readFrom false place gap acc
          (Printer.singleQuoted.body gap.isMultiLine cs ++ '\'' :: tail)
        = some ⟨(cs.reverse ++ (gap.reversedText ++ acc)).reverse, behind, tail, false⟩ := by
  induction cs generalizing place gap acc with
  | nil =>
    obtain ⟨here, sameLine, inLine, indented⟩ := readFrom_indentation between acc ('\'' :: tail)
    refine ⟨here.advance 1, Nat.le_of_eq sameLine.symm, ?_⟩
    rw [Printer.singleQuoted.body, indented, readFrom_singleQuote inLine ht]
    rfl
  | cons c rest ih =>
    obtain ⟨printable, feed⟩ := clean c List.mem_cons_self
    have cleanRest := fun d hd => clean d (List.mem_cons_of_mem _ hd)
    rw [Survey.hasSpaceBreak, Bool.or_eq_false_iff] at spaceBreak
    rw [Survey.hasBreakSpace, Bool.or_eq_false_iff] at breakSpace
    have ih := fun {place} {gap} => @ih cleanRest spaceBreak.2 breakSpace.2 place gap
    rw [Printer.singleQuoted.body]
    -- A break closes a line, a space widens the gap, and anything else is a word, which the
    -- gap in front of it becomes part of.
    by_cases isEnd : isBreak c
    · have next : Between (place.newLine 1) rest (gap.addBreak c) := by
        have hs : rest.head? ≠ some ' ' := by simpa [isEnd] using breakSpace.1
        cases between with
        | closed => exact .lines feed hs
        | blanks => exact .lines feed hs
        | lines first => exact .lines first hs
      have multi : (gap.addBreak c).isMultiLine = true := by cases gap <;> rfl
      obtain ⟨behind, later, h⟩ := ih next acc
      refine ⟨behind, Nat.le_trans (Nat.le_succ _) later, ?_⟩
      rw [if_pos isEnd, List.cons_append, readFrom_break printable isEnd]
      rw [multi, between.reversedText_addBreak isEnd feed] at h
      rw [h]
      simp
    · rw [if_neg isEnd]
      simp only [List.append_assoc]
      obtain ⟨here, sameLine, inLine, indented⟩ := readFrom_indentation between acc
        ((if c = '\'' then ['\'', '\''] else [c]) ++
          (Printer.singleQuoted.body false rest ++ '\'' :: tail))
      rw [indented]
      by_cases space : c = ' '
      · subst space
        have oneLine : gap.isMultiLine = false := by
          cases between with
          | closed => rfl
          | blanks => rfl
          | lines _ h => exact absurd rfl h
        have next : Between (here.advance 1) rest (gap.addBlank ' ') := by
          have hb : rest.head?.any isBreak = false := by simpa using spaceBreak.1
          cases between with
          | closed => exact .blanks (Nat.succ_pos _) hb
          | blanks => exact .blanks (Nat.succ_pos _) hb
          | lines _ h => exact absurd rfl h
        obtain ⟨behind, later, h⟩ := ih next acc
        refine ⟨behind, Nat.le_trans (Nat.le_of_eq sameLine.symm) later, ?_⟩
        rw [Gap.isMultiLine_addBlank, oneLine, Gap.reversedText_addBlank oneLine] at h
        rw [if_neg (by decide), List.singleton_append, readFrom_space, h]
        simp
      · have blank : isGapBlank c = false := by simp [isGapBlank_of_isPrintable printable, space]
        have taken : ∃ there : Place, there.line = here.line ∧ 0 < there.column ∧
            ∀ more, readFrom false here gap acc
                ((if c = '\'' then ['\'', '\''] else [c]) ++ more)
              = readFrom false there .closed (c :: (gap.reversedText ++ acc)) more := by
          by_cases quote : c = '\''
          · subst quote
            exact ⟨here.advance 2, rfl, Nat.succ_pos _, fun _ => readFrom_doubledQuote inLine⟩
          · refine ⟨here.advance 1, rfl, Nat.succ_pos _, fun more => ?_⟩
            rw [if_neg quote]
            exact readFrom_take blank (by simpa using isEnd) inLine (fun _ => quote) (by simp)
        obtain ⟨there, goesOn, inLine, taken⟩ := taken
        obtain ⟨behind, later, h⟩ := ih (.closed inLine) (c :: (gap.reversedText ++ acc))
        refine ⟨behind, by omega, ?_⟩
        rw [Gap.isMultiLine_closed, Gap.reversedText_closed, List.nil_append] at h
        rw [taken, h]
        simp

/-- The text between single quotes is the text that was written. -/
theorem readFrom_singleQuotes {cs : List Char} (h : Survey.allowsSingleQuotes cs)
    (feed : '\n' ∉ cs) {place : Place} (inLine : 0 < place.column) {tail : List Char}
    (ht : tail.head? ≠ some '\'') :
    ∃ behind : Place, place.line ≤ behind.line ∧
      readFrom false place .closed []
          (Printer.singleQuoted.body false cs ++ '\'' :: tail)
        = some ⟨cs, behind, tail, false⟩ := by
  simp only [Survey.allowsSingleQuotes, Survey.isClean, Bool.and_eq_true, List.all_eq_true,
    Bool.not_eq_true'] at h
  obtain ⟨⟨clean, spaceBreak⟩, breakSpace⟩ := h
  have cleaner : ∀ c ∈ cs, isPrintable c ∧ c ≠ '\n' := fun c hc =>
    ⟨clean c hc, fun e => feed (e ▸ hc)⟩
  have := readFrom_singleQuoted cleaner spaceBreak breakSpace (.closed inLine) [] ht
  simpa using this

/-! ### Between double quotes. -/

theorem hexValue?_hexDigit : ∀ d < 16, hexValue? (Printer.hexDigit d) = some d := by
  decide

theorem length_hexDigits (width n : Nat) : (Printer.hexDigits width n).length = width := by
  induction width generalizing n with
  | zero => rfl
  | succ width ih => simp [Printer.hexDigits, ih]

/-- Digits write the number as far as they go. -/
theorem hexNumber?_hexDigits (width n : Nat) :
    hexNumber? (Printer.hexDigits width n) = some (n % 16 ^ width) := by
  induction width generalizing n with
  | zero => simp [Printer.hexDigits, hexNumber?, Nat.mod_one]
  | succ width ih =>
    have low : n % 16 < 16 := Nat.mod_lt _ (by decide)
    have split : n / 16 % 16 ^ width * 16 + n % 16 = n % 16 ^ (width + 1) := by
      rw [Nat.pow_succ, Nat.mul_comm (16 ^ width), Nat.mod_mul]
      omega
    rw [hexNumber?, Printer.hexDigits, List.foldlM_append, ← hexNumber?, ih]
    simp only [Option.bind_eq_bind, Option.bind_some, List.foldlM_cons, List.foldlM_nil,
      hexValue?_hexDigit _ low, Option.map_some, split, Option.pure_def]

theorem charOfCode?_toNat (c : Char) : charOfCode? c.toNat = some c := by
  have valid : c.toNat.isValidChar := c.valid
  rw [charOfCode?, dif_pos valid]
  rfl

/-- A numeric escape with enough digits stands for its character. -/
theorem readEscape_number {letter : Char} {width : Nat} (named : escapedByLetter? letter = none)
    (digits : escapeDigits? letter = some width) {c : Char} (fits : c.toNat < 16 ^ width)
    (rest : List Char) :
    readEscape (letter :: (Printer.hexDigits width c.toNat ++ rest)) = some (c, width + 1) := by
  have taken : (Printer.hexDigits width c.toNat ++ rest).take width
      = Printer.hexDigits width c.toNat := by
    rw [List.take_append_of_le_length (Nat.le_of_eq (length_hexDigits _ _).symm),
      List.take_of_length_le (Nat.le_of_eq (length_hexDigits _ _))]
  simp only [readEscape, named, digits, taken, length_hexDigits, hexNumber?_hexDigits,
    Nat.mod_eq_of_lt fits, charOfCode?_toNat, Option.bind_eq_bind, Option.bind_some, if_true,
    Nat.add_comm]

/-- The letter of an escape stands for the character that it is written for. -/
theorem escapedByLetter?_of_escapeLetter? {c letter : Char}
    (h : Printer.escapeLetter? c = some letter) :
    escapedByLetter? letter = some c ∧ isBreak letter = false := by
  unfold Printer.escapeLetter? at h
  repeat
    rcases ite_eq_iff.1 h with ⟨hc, ⟨⟩⟩ | ⟨-, h⟩
    · exact ⟨congrArg some (Char.ext hc.symm), rfl⟩
  cases h

/-- **An escape is read as the character that it is written for.** -/
theorem readEscape_escape (c : Char) (rest : List Char) :
    ∃ letter digits, Printer.escape c = '\\' :: letter :: digits ∧ isBreak letter = false ∧
      readEscape (letter :: (digits ++ rest)) = some (c, digits.length + 1) := by
  unfold Printer.escape
  split
  · next letter h =>
    obtain ⟨named, noBreak⟩ := escapedByLetter?_of_escapeLetter? h
    exact ⟨letter, [], rfl, noBreak, by simp [readEscape, named]⟩
  · have numeric : ∀ {letter : Char} {width : Nat}, escapedByLetter? letter = none →
        escapeDigits? letter = some width → c.toNat < 16 ^ width →
          readEscape (letter :: (Printer.hexDigits width c.toNat ++ rest))
            = some (c, (Printer.hexDigits width c.toNat).length + 1) := by
      intro letter width named digits fits
      rw [length_hexDigits]
      exact readEscape_number named digits fits rest
    split
    · next h => exact ⟨'x', _, rfl, rfl, numeric rfl rfl (Nat.lt_succ_of_le h)⟩
    · split
      · next h => exact ⟨'u', _, rfl, rfl, numeric rfl rfl (Nat.lt_succ_of_le h)⟩
      · exact ⟨'U', _, rfl, rfl, numeric rfl rfl c.val.toNat_lt⟩

/-- **A text between double quotes is read back**, from any blanks on. -/
theorem readFrom_doubleQuoted (cs : List Char) {place : Place} {gap : Gap}
    (oneLine : gap.isMultiLine = false) (inLine : 0 < place.column) (acc tail : List Char) :
    ∃ behind : Place, place.line ≤ behind.line ∧
      readFrom true place gap acc
          (cs.flatMap (fun c => if Printer.isEscaped c then Printer.escape c else [c]) ++
            '"' :: tail)
        = some ⟨(cs.reverse ++ (gap.reversedText ++ acc)).reverse, behind, tail, false⟩ := by
  induction cs generalizing place gap acc with
  | nil => exact ⟨place.advance 1, Nat.le_refl _, readFrom_doubleQuote inLine⟩
  | cons c rest ih =>
    rw [List.flatMap_cons, List.append_assoc]
    by_cases escaped : Printer.isEscaped c
    · obtain ⟨letter, digits, written, noBreak, read⟩ := readEscape_escape c
        (rest.flatMap (fun c => if Printer.isEscaped c then Printer.escape c else [c]) ++
          '"' :: tail)
      rw [if_pos escaped, written]
      simp only [List.cons_append]
      rw [readFrom_escape inLine noBreak read]
      obtain ⟨behind, later, h⟩ := @ih (place.advance (digits.length + 2)) .closed rfl
        (Nat.lt_of_lt_of_le inLine (Nat.le_add_right _ _)) (c :: (gap.reversedText ++ acc))
      exact ⟨behind, later, by rw [h]; simp⟩
    · rw [if_neg escaped, List.singleton_append]
      simp only [Printer.isEscaped, Bool.or_eq_true, Bool.not_eq_true', not_or, beq_iff_eq,
        Bool.not_eq_true, Bool.not_eq_false] at escaped
      obtain ⟨⟨⟨printable, noBreak⟩, quote⟩, backslash⟩ := escaped
      by_cases space : c = ' '
      · subst space
        rw [readFrom_space]
        obtain ⟨behind, later, h⟩ := @ih (place.advance 1) (gap.addBlank ' ')
          (by rwa [Gap.isMultiLine_addBlank]) (Nat.succ_pos _) acc
        rw [Gap.reversedText_addBlank oneLine] at h
        exact ⟨behind, later, by rw [h]; simp⟩
      · have blank : isGapBlank c = false := by simp [isGapBlank_of_isPrintable printable, space]
        rw [readFrom_take blank noBreak inLine Bool.noConfusion (fun _ => ⟨quote, backslash⟩)]
        obtain ⟨behind, later, h⟩ := @ih (place.advance 1) .closed rfl (Nat.succ_pos _)
          (c :: (gap.reversedText ++ acc))
        exact ⟨behind, later, by rw [h]; simp⟩

/-- The text between double quotes is the text that was written. -/
theorem readFrom_doubleQuotes (cs : List Char) {place : Place} (inLine : 0 < place.column)
    (tail : List Char) :
    ∃ behind : Place, place.line ≤ behind.line ∧
      readFrom true place .closed []
          (cs.flatMap (fun c => if Printer.isEscaped c then Printer.escape c else [c]) ++
            '"' :: tail)
        = some ⟨cs, behind, tail, false⟩ := by
  have := readFrom_doubleQuoted cs Gap.isMultiLine_closed inLine [] tail
  simpa using this

end Quoted

end ArtifactCourier.Yaml
