/-
  ArtifactCourier.Proofs.Yaml.Literal
  ──────────────────────────────────────
  **Literal blocks are read back.**

  A literal block is read line by line: the empty lines in front of a line are counted by
  their breaks, the line itself is taken as it stands, and what becomes of the breaks at
  the end is up to the header.  What has been read is therefore known up to its end
  (`Ending`), and the header settles that.

    • `readLeading_indented` — empty lines and the indentation are read over,
    • `Lines.of_ends` — a text that ends in a break is made of lines,
    • `readLines_lines` — the lines are read to the next entry,
    • `chomped_chompingOf` — the header keeps as much of the end as the text has,
    • `read_literal` — the block is read as the text that was written.
-/
import ArtifactCourier.Proofs.Yaml.Scalars
import ArtifactCourier.Yaml.Block

namespace ArtifactCourier.Yaml

/-! ## §1. Indented text. -/

namespace Printer

theorem indented_breaks {bs : List Char} (h : ∀ b ∈ bs, isBreak b) (cs : List Char) :
    indented true (bs ++ cs) = bs ++ indented true cs := by
  induction bs with
  | nil => rfl
  | cons b bs ih =>
    rw [List.cons_append, indented, if_pos (h b List.mem_cons_self),
      ih fun d hd => h d (List.mem_cons_of_mem _ hd)]
    rfl

theorem indented_line {line : List Char} (h : ∀ c ∈ line, isBreak c = false) (cs : List Char) :
    indented false (line ++ cs) = line ++ indented false cs := by
  induction line with
  | nil => rfl
  | cons c line ih =>
    rw [List.cons_append, indented, if_neg (by simp [h c List.mem_cons_self]),
      ih fun d hd => h d (List.mem_cons_of_mem _ hd)]
    rfl

theorem indented_break {b : Char} (h : isBreak b) (atLineStart : Bool) (cs : List Char) :
    indented atLineStart (b :: cs) = b :: indented true cs := by
  rw [indented, if_pos h]

/-- The indentation stands in front of a line that is not empty. -/
theorem indented_start {c : Char} (h : isBreak c = false) (cs : List Char) :
    indented true (c :: cs) = indentation ++ indented false (c :: cs) := by
  simp [indented, h]

theorem indented_append_break {b : Char} (h : isBreak b) (atLineStart : Bool) (cs : List Char) :
    indented atLineStart (cs ++ [b]) = indented atLineStart cs ++ [b] := by
  induction cs generalizing atLineStart with
  | nil => exact indented_break h atLineStart []
  | cons c cs ih =>
    rw [List.cons_append, indented, indented, ih, ih]
    split
    · rfl
    · rw [List.append_assoc]
      rfl

theorem length_le_indented (atLineStart : Bool) (cs : List Char) :
    cs.length ≤ (indented atLineStart cs).length := by
  induction cs generalizing atLineStart with
  | nil => exact Nat.zero_le _
  | cons c cs ih =>
    rw [indented]
    split
    · exact Nat.succ_le_succ (ih true)
    · rw [List.length_append, List.length_cons, List.length_cons]
      exact Nat.le_trans (Nat.succ_le_succ (ih false)) (Nat.le_add_left _ _)

end Printer

namespace Block

/-! ## §2. What lies in front of a line. -/

/-- The lines of `cs`, which does not begin with a break, come next, and `more` behind them. -/
structure Leading.Faces (lead : Leading) (cs more : List Char) : Prop where
  rest : lead.rest = Printer.indented false cs ++ more
  column : lead.place.column = if cs = [] then 0 else Printer.depth

section Leading

variable {depth : Option Nat} {place : Place} {breaks : List Char} {widest : Nat}

/-- Empty lines are counted by their breaks. -/
theorem readLeading_breaks {bs : List Char} (h : ∀ b ∈ bs, isPrintable b ∧ isBreak b)
    (atStart : place.column = 0) (rest : List Char) :
    ∃ here : Place, place.line ≤ here.line ∧ here.column = 0 ∧
      readLeading depth place breaks widest (bs ++ rest)
        = readLeading depth here (bs.reverse ++ breaks) widest rest := by
  induction bs generalizing place breaks with
  | nil => exact ⟨place, Nat.le_refl _, atStart, rfl⟩
  | cons b bs ih =>
    obtain ⟨printable, isEnd⟩ := h b List.mem_cons_self
    have noBlank := isGapBlank_of_isBreak isEnd
    simp only [isGapBlank, Bool.or_eq_false_iff, beq_eq_false_iff_ne] at noBlank
    obtain ⟨here, later, column, read⟩ := @ih (place.newLine 1) (b :: breaks)
      (fun d hd => h d (List.mem_cons_of_mem _ hd)) rfl
    refine ⟨here, Nat.le_trans (Nat.le_succ _) later, column, ?_⟩
    rw [List.cons_append, readLeading]
    simp only [noBlank.1, noBlank.2, and_false, if_false, isEnd, if_true,
      isHalfBreak_of_isPrintable printable, Bool.false_eq_true,
      normalBreak_of_isPrintable printable isEnd, atStart, Nat.max_zero, read]
    simp

/-- A line begins at a character that is no white space. -/
theorem readLeading_stop {rest : List Char}
    (h : ∀ c ∈ rest.head?, isGapBlank c = false ∧ isBreak c = false) :
    readLeading depth place breaks widest rest
      = some ⟨breaks, max widest place.column, place, rest⟩ := by
  cases rest with
  | nil => rfl
  | cons c rest =>
    obtain ⟨noBlank, noBreak⟩ := h c rfl
    simp only [isGapBlank, Bool.or_eq_false_iff, beq_eq_false_iff_ne] at noBlank
    rw [readLeading]
    simp [noBlank, noBreak]

/-- With a known depth a line begins behind the indentation, whatever stands there. -/
theorem readLeading_indentation {c : Char} (noBreak : isBreak c = false)
    (atStart : place.column = 0) (rest : List Char) :
    readLeading (some Printer.depth) place breaks widest (Printer.indentation ++ c :: rest)
      = some ⟨breaks, max widest 2, place.advance 2, c :: rest⟩ := by
  show readLeading (some 2) place breaks widest (' ' :: ' ' :: c :: rest) = _
  rw [readLeading, readLeading, readLeading]
  simp [atStart, Place.advance, noBreak]

end Leading

theorem head?_dropWhile_isBreak (cs : List Char) :
    ∀ c ∈ (cs.dropWhile isBreak).head?, isBreak c = false := by
  intro c hc
  have := List.head?_dropWhile_not isBreak cs
  rw [hc] at this
  exact this

/-- **Empty lines and the indentation of the next line are read over.** -/
theorem readLeading_indented {cs more : List Char} (clean : ∀ c ∈ cs, isPrintable c)
    (hm : startsLine more) {place : Place} (atStart : place.column = 0) (widest : Nat) :
    ∃ lead, readLeading (some Printer.depth) place [] widest (Printer.indented true cs ++ more)
        = some lead ∧ lead.reversedBreaks = (cs.takeWhile isBreak).reverse ∧
      lead.Faces (cs.dropWhile isBreak) more ∧ place.line ≤ lead.place.line := by
  have breaks : ∀ b ∈ cs.takeWhile isBreak, isPrintable b ∧ isBreak b := fun b hb =>
    ⟨clean b ((List.takeWhile_prefix _).subset hb), List.all_eq_true.1 List.all_takeWhile b hb⟩
  have split := Printer.indented_breaks (fun b hb => (breaks b hb).2) (cs.dropWhile isBreak)
  rw [List.takeWhile_append_dropWhile] at split
  obtain ⟨here, later, column, read⟩ := @readLeading_breaks (some Printer.depth) place [] widest
    _ breaks atStart (Printer.indented true (cs.dropWhile isBreak) ++ more)
  rw [split, List.append_assoc, read, List.append_nil]
  have head := head?_dropWhile_isBreak cs
  cases h : cs.dropWhile isBreak with
  | nil =>
    refine ⟨_, readLeading_stop ?_, rfl, ⟨rfl, column⟩, later⟩
    intro c hc
    cases more with
    | nil => cases hc
    | cons d rest =>
      cases hc
      exact of_startsLine hm
  | cons c rest =>
    have noBreak : isBreak c = false := head c (by rw [h]; rfl)
    have written : Printer.indented false (c :: rest) = c :: Printer.indented false rest := by
      rw [Printer.indented, if_neg (by simp [noBreak])]
      rfl
    refine ⟨⟨(cs.takeWhile isBreak).reverse, max widest 2, here.advance 2,
      Printer.indented false (c :: rest) ++ more⟩, ?_, rfl, ⟨rfl, ?_⟩, later⟩
    · rw [Printer.indented_start noBreak, written, List.append_assoc, List.cons_append]
      exact readLeading_indentation noBreak column _
    · simp [Place.advance, column, Printer.depth]

/-! ## §3. Line by line. -/

/-- Lines that end in a break, each with the empty lines behind it; the first is not empty. -/
inductive Lines : List Char → Prop
  | nil : Lines []
  | cons {line breaks rest : List Char} {b : Char} (text : line ≠ [])
      (inLine : ∀ c ∈ line, isBreak c = false) (isEnd : isBreak b)
      (empty : ∀ c ∈ breaks, isBreak c) (next : ∀ c ∈ rest.head?, isBreak c = false)
      (lines : Lines rest) : Lines (line ++ b :: (breaks ++ rest))

/-- A text that begins with no break and ends in one is made of lines. -/
theorem Lines.of_ends (cs : List Char) (head : ∀ c ∈ cs.head?, isBreak c = false)
    (last : ∀ c ∈ cs.getLast?, isBreak c) : Lines cs := by
  by_cases nonempty : cs = []
  · rw [nonempty]
    exact .nil
  -- The first line ends at the first break, and the second begins behind all the breaks there.
  have whole : cs.takeWhile (!isBreak ·) ++ cs.dropWhile (!isBreak ·) = cs :=
    List.takeWhile_append_dropWhile
  have inLine : ∀ c ∈ cs.takeWhile (!isBreak ·), isBreak c = false := fun c hc => by
    simpa using List.all_eq_true.1 (List.all_takeWhile (p := (!isBreak ·))) c hc
  cases hafter : cs.dropWhile (!isBreak ·) with
  | nil =>
    rw [hafter, List.append_nil] at whole
    have isEnd := last _ (List.getLast?_eq_some_getLast nonempty)
    have := inLine (cs.getLast nonempty) (by rw [whole]; exact List.getLast_mem _)
    simp [isEnd] at this
  | cons b after =>
    have isEnd : isBreak b := by
      have := List.head?_dropWhile_not (!isBreak ·) cs
      simpa [hafter] using this
    have text : cs.takeWhile (!isBreak ·) ≠ [] := by
      intro none
      rw [none, hafter, List.nil_append] at whole
      have := head b (by rw [← whole]; rfl)
      simp [isEnd] at this
    have parts : cs = cs.takeWhile (!isBreak ·) ++
        b :: (after.takeWhile isBreak ++ after.dropWhile isBreak) := by
      rw [List.takeWhile_append_dropWhile, ← hafter, whole]
    have lastRest : ∀ c ∈ (after.dropWhile isBreak).getLast?, isBreak c := by
      intro c hc
      refine last c ?_
      rw [parts, List.getLast?_append, List.getLast?_cons, List.getLast?_append, hc]
      rfl
    have shorter : (after.dropWhile isBreak).length < cs.length := by
      have := congrArg List.length parts
      simp only [List.length_append, List.length_cons] at this
      omega
    rw [parts]
    exact .cons text inLine isEnd (fun c hc => List.all_eq_true.1 List.all_takeWhile c hc)
      (head?_dropWhile_isBreak after)
      (Lines.of_ends _ (head?_dropWhile_isBreak after) lastRest)
termination_by cs.length

/-- What has been read of a literal block: text up to the last line that is not empty, the break
that ends it, and the breaks of the empty lines behind it. -/
structure Ending (acc : List Char) (lineBreak : Option Char) (breaks : List Char) : Prop where
  empty : ∀ b ∈ breaks, isBreak b
  isEnd : ∀ b ∈ lineBreak, isBreak b
  inLine : ∀ c ∈ acc.head?, isBreak c = false
  nothing : lineBreak = none → acc = []

/-- **Lines are read to the next entry.**  What has been read is the text so far and the lines,
and only its end is up to the header. -/
theorem readLines_lines (chomping : Chomping) {more : List Char} (hm : startsLine more)
    {cs : List Char} (lines : Lines cs) (clean : ∀ c ∈ cs, isPrintable c) {steps : Nat}
    (enough : cs.length ≤ steps) {acc : List Char} {lineBreak : Option Char} (blankBefore : Bool)
    {lead : Leading} (faces : lead.Faces cs more)
    (ending : Ending acc lineBreak lead.reversedBreaks) :
    ∃ (text : List Char) (lastBreak : Option Char) (breaks : List Char) (behind : Place),
      readLines true chomping Printer.depth steps acc lineBreak blankBefore lead
        = some ⟨(chomped chomping text lastBreak breaks).reverse, behind, more, false⟩ ∧
      behind.column = 0 ∧ lead.place.line ≤ behind.line ∧ Ending text lastBreak breaks ∧
      breaks ++ lastBreak.toList ++ text
        = cs.reverse ++ (lead.reversedBreaks ++ lineBreak.toList ++ acc) := by
  -- Line by line: what one iteration finds behind its line is joined to the text by the next, so
  -- that `acc`, `lineBreak` and the breaks of `lead` are neighbours all the time.
  induction lines generalizing steps acc lineBreak blankBefore lead with
  | nil =>
    have here : lead.rest = more := faces.rest
    have column : lead.place.column = 0 := faces.column
    refine ⟨acc, lineBreak, lead.reversedBreaks, lead.place, ?_, column, Nat.le_refl _, ending, rfl⟩
    cases steps with
    | zero => rw [readLines, here]
    | succ steps =>
      rw [readLines, here]
      cases more with
      | nil => rfl
      | cons c rest => simp [column, Printer.depth]
  | @cons line breaks rest b text inLine isEnd empty next lines ih =>
    obtain ⟨steps, rfl⟩ : ∃ n, steps = n + 1 :=
      ⟨steps - 1, by simp only [List.length_append, List.length_cons] at enough; omega⟩
    have cleanRest : ∀ c ∈ breaks ++ rest, isPrintable c := fun c hc =>
      clean c (List.mem_append_right _ (List.mem_cons_of_mem _ hc))
    have printable : isPrintable b := clean b (List.mem_append_right _ List.mem_cons_self)
    have noText : rest.takeWhile isBreak = [] ∧ rest.dropWhile isBreak = rest := by
      cases rest with
      | nil => exact ⟨rfl, rfl⟩
      | cons d rest => simp [next d rfl]
    have emptyLines : (breaks ++ rest).takeWhile isBreak = breaks := by
      rw [List.takeWhile_append_of_pos empty, noText.1, List.append_nil]
    have laterLines : (breaks ++ rest).dropWhile isBreak = rest := by
      rw [List.dropWhile_append_of_pos empty, noText.2]
    -- what follows the line, and what lies in front of the next one
    let behindLine := Printer.indented true (breaks ++ rest) ++ more
    let place := (lead.place.advance line.length).newLine 1
    obtain ⟨front, read, reversed, facesRest, later⟩ :=
      readLeading_indented cleanRest hm (show place.column = 0 from rfl) 0
    rw [emptyLines] at reversed
    rw [laterLines] at facesRest
    have here : lead.rest = line ++ b :: behindLine := by
      rw [faces.rest, Printer.indented_line inLine, Printer.indented_break isEnd, List.append_assoc,
        List.cons_append]
    have column : lead.place.column = Printer.depth := by rw [faces.column, if_neg (by simp)]
    have thisLine : (line ++ b :: behindLine).takeWhile (!isBreak ·) = line := by
      rw [List.takeWhile_append_of_pos (by simpa using inLine)]
      simp [isEnd]
    have otherLines : (line ++ b :: behindLine).dropWhile (!isBreak ·) = b :: behindLine := by
      rw [List.dropWhile_append_of_pos (by simpa using inLine)]
      simp [isEnd]
    have broken : readBreak (lead.place.advance line.length) (b :: behindLine)
        = (some b, place, behindLine) := by
      simp [readBreak, isEnd, breakLength_of_isPrintable printable,
        normalBreak_of_isPrintable printable isEnd, place]
    have step : readLines true chomping Printer.depth (steps + 1) acc lineBreak blankBefore lead
        = readLines true chomping Printer.depth steps
            (line.reverse ++ (lead.reversedBreaks ++ lineBreak.toList ++ acc)) (some b)
            (line.head?.any isGapBlank) front := by
      obtain ⟨c, cs, rfl⟩ := List.exists_cons_of_ne_nil text
      rw [readLines, here]
      rw [List.cons_append] at thisLine otherLines ⊢
      simp only [column, if_true, thisLine, otherLines, broken]
      rw [read]
      simp [joined]
    have ending' : Ending (line.reverse ++ (lead.reversedBreaks ++ lineBreak.toList ++ acc))
        (some b) front.reversedBreaks := by
      refine ⟨?_, ?_, ?_, by simp⟩
      · rw [reversed]
        exact fun d hd => empty d (List.mem_reverse.1 hd)
      · rintro _ ⟨⟩
        exact isEnd
      · intro d hd
        obtain ⟨e, es, he⟩ := List.exists_cons_of_ne_nil (List.reverse_ne_nil_iff.2 text)
        rw [he] at hd
        cases hd
        exact inLine d (List.mem_reverse.1 (by rw [he]; exact List.mem_cons_self))
    have fewer : rest.length ≤ steps := by
      simp only [List.length_append, List.length_cons] at enough
      omega
    obtain ⟨last, lastBreak, breaks', behind, read', column', line', ending'', whole⟩ :=
      ih (fun c hc => cleanRest c (List.mem_append_right _ hc)) fewer
        (line.head?.any isGapBlank) facesRest ending'
    refine ⟨last, lastBreak, breaks', behind, by rw [step, read'], column', ?_, ending'', ?_⟩
    · exact Nat.le_trans (Nat.le_trans (Nat.le_succ _) later) line'
    · rw [whole, reversed]
      simp

/-! ## §4. Header and end. -/

/-- What the header of a literal block says of its end. -/
def chompingOf (cs : List Char) : Chomping :=
  match cs.reverse with
  | [] => .strip
  | [c] => if isBreak c then .keep else .strip
  | c :: d :: _ => if !isBreak c then .strip else if isBreak d then .keep else .clip

/-- What the header of a literal block says of its depth. -/
def incrementOf (cs : List Char) : Option Nat :=
  if cs.head?.any Survey.isEdgeGap then some Printer.depth else none

/-- The sign of a header for what becomes of the end. -/
def Chomping.sign : Chomping → List Char
  | .strip => ['-']
  | .clip => []
  | .keep => ['+']

theorem literalHints_eq (cs : List Char) :
    Printer.literalHints cs
      = (if cs.head?.any Survey.isEdgeGap then ['2'] else []) ++ (chompingOf cs).sign := by
  unfold Printer.literalHints chompingOf
  congr 1
  rcases cs.reverse with _ | ⟨c, _ | ⟨d, rest⟩⟩
  · rfl
  · by_cases h : isBreak c <;> simp [h, Chomping.sign]
  · by_cases h : isBreak c <;> by_cases h' : isBreak d <;> simp [h, h', Chomping.sign]

/-- **The header is read as it is written.** -/
theorem readHeader_literalHints (cs body : List Char) :
    readHeader (Printer.literalHints cs ++ '\n' :: body)
      = some (⟨chompingOf cs, incrementOf cs⟩, '\n' :: body) := by
  rw [literalHints_eq, incrementOf]
  by_cases edge : cs.head?.any Survey.isEdgeGap
  · rw [if_pos edge, if_pos edge]
    cases chompingOf cs <;> rfl
  · rw [if_neg edge, if_neg edge]
    cases chompingOf cs <;> rfl

/-- The break that closes a piece of the document, unless its text ends in one. -/
def closing (cs : List Char) : List Char := if cs.getLast?.any isBreak then [] else ['\n']

theorem isPrintable_closing {cs : List Char} (clean : ∀ c ∈ cs, isPrintable c) :
    ∀ c ∈ cs ++ closing cs, isPrintable c := by
  intro c hc
  rcases List.mem_append.1 hc with hc | hc
  · exact clean c hc
  · unfold closing at hc
    split at hc
    · cases hc
    · cases List.mem_singleton.1 hc
      decide

/-- With its closing break a text ends in one. -/
theorem isBreak_of_getLast?_closing (cs : List Char) :
    ∀ c ∈ (cs ++ closing cs).getLast?, isBreak c := by
  intro c hc
  unfold closing at hc
  split at hc
  · next isEnd =>
    rw [List.append_nil] at hc
    rwa [Option.mem_def.1 hc] at isEnd
  · rw [List.getLast?_concat] at hc
    cases hc
    rfl

/-- There are no empty lines behind a break that a line ends in. -/
theorem Ending.eq_nil {acc breaks rest : List Char} {lineBreak : Option Char} {b c : Char}
    (ending : Ending acc lineBreak breaks)
    (whole : breaks ++ lineBreak.toList ++ acc = b :: c :: rest) (text : isBreak c = false) :
    breaks = [] := by
  cases breaks with
  | nil => rfl
  | cons d breaks =>
    rw [List.cons_append, List.cons_append, List.cons.injEq] at whole
    have isEnd : isBreak c := by
      cases breaks with
      | cons e breaks =>
        obtain ⟨rfl, -⟩ := List.cons.inj whole.2
        exact ending.empty e (List.mem_cons_of_mem _ List.mem_cons_self)
      | nil =>
        cases lineBreak with
        | some e =>
          obtain ⟨rfl, -⟩ := List.cons.inj whole.2
          exact ending.isEnd e rfl
        | none =>
          rw [ending.nothing rfl] at whole
          cases whole.2
    rw [text] at isEnd
    cases isEnd

/-- **The end is treated so that the text remains.** -/
theorem chomped_chompingOf {cs acc breaks : List Char} {lineBreak : Option Char}
    (nonempty : cs ≠ []) (ending : Ending acc lineBreak breaks)
    (whole : breaks ++ lineBreak.toList ++ acc = (cs ++ closing cs).reverse) :
    chomped (chompingOf cs) acc lineBreak breaks = cs.reverse := by
  obtain ⟨c, before, hcs⟩ := List.exists_cons_of_ne_nil (List.reverse_ne_nil_iff.2 nonempty)
  have last : cs.getLast? = some c := by rw [← List.head?_reverse, hcs]; rfl
  rw [List.reverse_append, closing, last, Option.any_some, hcs] at whole
  by_cases isEnd : isBreak c
  · -- The text ends in a break: more than one are kept, and one is clipped to itself.
    rw [if_pos isEnd] at whole
    have kept : chomped .keep acc lineBreak breaks = cs.reverse := by rw [hcs]; exact whole
    cases before with
    | nil => simpa [chompingOf, hcs, isEnd] using kept
    | cons d before =>
      by_cases text : isBreak d
      · simpa [chompingOf, hcs, isEnd, text] using kept
      · rw [ending.eq_nil whole (by simpa using text)] at whole
        simpa [chompingOf, hcs, isEnd, text, chomped] using whole
  · -- The break behind the text is not part of it, and is stripped.
    rw [if_neg isEnd] at whole
    have stripped : chompingOf cs = .strip := by
      rw [chompingOf, hcs]
      cases before <;> simp [isEnd]
    rw [ending.eq_nil whole (by simpa using isEnd)] at whole
    cases lineBreak with
    | none =>
      rw [ending.nothing rfl] at whole
      cases whole
    | some b =>
      rw [stripped, hcs]
      exact (List.cons.inj whole).2

/-! ## §5. The block. -/

/-- The way to the first line that is not empty, and the depth, which that line shows or the
header gives. -/
theorem readLeading_front {cs : List Char} (nonempty : cs ≠ []) (clean : ∀ c ∈ cs, isPrintable c)
    {more : List Char} (hm : startsLine more) {place : Place} (atStart : place.column = 0) :
    ∃ lead, readLeading (incrementOf cs) place [] 0
        (Printer.indented true (cs ++ closing cs) ++ more) = some lead ∧
      lead.reversedBreaks = ((cs ++ closing cs).takeWhile isBreak).reverse ∧
      lead.Faces ((cs ++ closing cs).dropWhile isBreak) more ∧ place.line ≤ lead.place.line ∧
      (incrementOf cs).getD (max lead.widest 1) = Printer.depth := by
  have cleanWhole := isPrintable_closing clean
  unfold incrementOf
  split
  · -- The header gives the depth.
    obtain ⟨lead, read, reversed, faces, later⟩ :=
      readLeading_indented cleanWhole hm atStart 0
    exact ⟨lead, read, reversed, faces, later, rfl⟩
  · next edge =>
    -- The first line is not empty and begins with no space, so that it shows the depth.
    obtain ⟨c, rest, rfl⟩ := List.exists_cons_of_ne_nil nonempty
    simp only [List.head?_cons, Option.any_some, Survey.isEdgeGap, Bool.or_eq_true, beq_iff_eq,
      not_or, Bool.not_eq_true] at edge
    obtain ⟨space, noBreak⟩ := edge
    have tab := ne_tab_of_isPrintable (clean c List.mem_cons_self)
    rw [List.cons_append, Printer.indented_start noBreak]
    refine ⟨⟨[], 2, place.advance 2, Printer.indented false (c :: (rest ++ closing (c :: rest)))
      ++ more⟩, ?_, ?_, ⟨?_, ?_⟩, Nat.le_refl _, rfl⟩
    · have written : Printer.indented false (c :: (rest ++ closing (c :: rest)))
          = c :: Printer.indented false (rest ++ closing (c :: rest)) := by
        rw [Printer.indented, if_neg (by simp [noBreak])]
        rfl
      rw [written]
      show readLeading none place [] 0 (' ' :: ' ' :: c :: _) = _
      rw [readLeading, readLeading, readLeading]
      simp [space, tab, noBreak, Place.advance, atStart]
    · simp [noBreak]
    · simp [noBreak]
    · simp [noBreak, Place.advance, atStart, Printer.depth]

/-- **A literal block is read back** to the next entry. -/
theorem read_literal {cs : List Char} (h : Survey.allowsLiteral cs) {more : List Char}
    (hm : startsLine more) (place : Place) :
    ∃ behind : Place, behind.column = 0 ∧ place.line < behind.line ∧
      read true 0 place (Printer.literalHints cs ++
          '\n' :: (Printer.indented true cs ++ (closing cs ++ more)))
        = some ⟨cs, behind, more, false⟩ := by
  simp only [Survey.allowsLiteral, Survey.isClean, Bool.and_eq_true, List.all_eq_true,
    Bool.not_eq_true', List.isEmpty_eq_false_iff] at h
  obtain ⟨⟨⟨nonempty, clean⟩, -⟩, -⟩ := h
  -- The break that closes the block is read as one more of its text.
  have body : Printer.indented true cs ++ (closing cs ++ more)
      = Printer.indented true (cs ++ closing cs) ++ more := by
    unfold closing
    split
    · rw [List.nil_append, List.append_nil]
    · rw [Printer.indented_append_break rfl, List.append_assoc]
  rw [body]
  let whole := cs ++ closing cs
  let header := Printer.literalHints cs
  let rest := '\n' :: (Printer.indented true whole ++ more)
  let start := (place.advance ((header ++ rest).length - rest.length)).newLine 1
  obtain ⟨lead, front, reversed, faces, later, depth⟩ :=
    readLeading_front nonempty clean hm (show start.column = 0 from rfl)
  have endsInBreak : ∀ c ∈ (whole.dropWhile isBreak).getLast?, isBreak c := by
    intro c hc
    refine isBreak_of_getLast?_closing cs c ?_
    show c ∈ whole.getLast?
    rw [← List.takeWhile_append_dropWhile (p := isBreak) (l := whole), List.getLast?_append, hc]
    rfl
  have lines := Lines.of_ends _ (head?_dropWhile_isBreak whole) endsInBreak
  have cleanLines : ∀ c ∈ whole.dropWhile isBreak, isPrintable c := fun c hc =>
    isPrintable_closing clean c ((List.dropWhile_suffix _).subset hc)
  have enough : (whole.dropWhile isBreak).length ≤ lead.rest.length := by
    rw [faces.rest, List.length_append]
    exact Nat.le_trans (Printer.length_le_indented false _) (Nat.le_add_right _ _)
  have nothing : Ending [] none lead.reversedBreaks := by
    refine ⟨fun b hb => ?_, by simp, by simp, fun _ => rfl⟩
    rw [reversed] at hb
    exact List.all_eq_true.1 List.all_takeWhile b (List.mem_reverse.1 hb)
  obtain ⟨text, lastBreak, breaks, behind, read, column, line, ending, kept⟩ :=
    readLines_lines (chompingOf cs) hm lines cleanLines enough false faces nothing
  have all : breaks ++ lastBreak.toList ++ text = whole.reverse := by
    rw [kept, reversed]
    simp only [Option.toList_none, List.append_nil]
    rw [← List.reverse_append, List.takeWhile_append_dropWhile]
  refine ⟨behind, column, ?_, ?_⟩
  · exact Nat.lt_of_lt_of_le (Nat.lt_succ_self _) (Nat.le_trans later line)
  · have header' : readHeader (header ++ rest) = some (⟨chompingOf cs, incrementOf cs⟩, rest) :=
      readHeader_literalHints cs _
    have feed : readBreak (place.advance ((header ++ rest).length - rest.length)) rest
        = (some '\n', start, Printer.indented true whole ++ more) := rfl
    have noBlank : rest.dropWhile isGapBlank = rest := rfl
    have noComment : ¬rest.head? = some '#' := by simp [rest]
    have given : (incrementOf cs).map (fun n => (max (0 : Int) 0).toNat + n) = incrementOf cs := by
      cases incrementOf cs <;> simp
    show Block.read true 0 place (header ++ rest) = _
    simp only [Block.read, header', Option.bind_eq_bind, Option.bind_some, noBlank,
      if_neg noComment, given]
    rw [if_pos (show endsLine rest = true from rfl), feed]
    dsimp only
    rw [front, Option.bind_some]
    have depth' : (incrementOf cs).getD (max lead.widest (max ((0 : Int) + 1) 1).toNat)
        = Printer.depth := depth
    rw [depth', read, chomped_chompingOf nonempty ending all, List.reverse_reverse]

end Block
end ArtifactCourier.Yaml
