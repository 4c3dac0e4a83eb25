/-
  ArtifactCourier.Proofs.Yaml.Printed
  ──────────────────────────────────────
  **What a printed mapping looks like.**

  A text is written in a style that its survey allows, in characters that a document may
  hold, and with its line closed behind it.  The lemmas:

    • `written_ofText` — the style of a text, with what the survey has found,
    • `closeLine_append`, `closeLine_literal` — the break that closes a line,
    • `entry_eq` — an entry is its name, a colon, and what stands for its value,
    • `isReadable_entriesText` — all of it may stand in a document.
-/
import ArtifactCourier.Proofs.Yaml.Literal

namespace ArtifactCourier.Yaml

/-! ## §1. Texts. -/

/-- The style of a text, with what the survey of the text has found. -/
inductive Written (cs : List Char) : Style → Prop
  | plain (text : Resolution.needsQuotes cs = false) (allowed : Survey.allowsPlain cs) :
      Written cs .plain
  | singleQuoted (oneLine : '\n' ∉ cs) (allowed : Survey.allowsSingleQuotes cs) :
      Written cs .singleQuoted
  | literal (allowed : Survey.allowsLiteral cs) : Written cs .literal
  | doubleQuoted : Written cs .doubleQuoted

theorem written_ofText (cs : List Char) : Written cs (Style.ofText cs) := by
  unfold Style.ofText
  by_cases feed : cs.contains '\n'
  · rw [if_pos feed]
    by_cases allowed : Survey.allowsLiteral cs
    · rw [if_pos allowed]
      exact .literal allowed
    · rw [if_neg allowed]
      exact .doubleQuoted
  · rw [if_neg feed]
    split
    · next h =>
      simp only [Bool.and_eq_true, Bool.not_eq_true'] at h
      exact .plain h.1 h.2
    · split
      · next allowed => exact .singleQuoted (by simpa using feed) allowed
      · exact .doubleQuoted

namespace Printer

theorem closeLine_append {cs : List Char} (nonempty : cs ≠ []) (before : List Char) :
    closeLine (before ++ cs) = before ++ closeLine cs := by
  have last : (before ++ cs).getLast? = cs.getLast? := by
    rw [List.getLast?_append, List.getLast?_eq_some_getLast nonempty]
    rfl
  unfold closeLine
  rw [last]
  split
  · rfl
  · rw [List.append_assoc]

theorem closeLine_of_text {cs : List Char} (h : cs.getLast?.any isBreak = false) :
    closeLine cs = cs ++ ['\n'] := by
  rw [closeLine, if_neg (by simp [h])]

theorem getLast?_indented (atLineStart : Bool) (cs : List Char) :
    (indented atLineStart cs).getLast? = cs.getLast? := by
  induction cs generalizing atLineStart with
  | nil => rfl
  | cons c cs ih =>
    rw [indented, List.getLast?_cons]
    split
    · rw [List.getLast?_cons, ih]
    · rw [List.getLast?_append, List.getLast?_cons, ih]
      rfl

/-- A literal block is closed by a break of its own unless its text ends in one. -/
theorem closeLine_literal {cs : List Char} (nonempty : cs ≠ []) :
    closeLine (literal cs) = literal cs ++ Block.closing cs := by
  have last : (literal cs).getLast? = cs.getLast? := by
    rw [literal, List.getLast?_append, List.getLast?_cons, getLast?_indented,
      List.getLast?_eq_some_getLast nonempty]
    rfl
  unfold closeLine Block.closing
  rw [last]
  split
  · rw [List.append_nil]
  · rfl

/-- A text that is written is not empty. -/
theorem scalar_ne_nil (s : String) : scalar s ≠ [] := by
  unfold scalar
  have h := written_ofText s.toList
  generalize Style.ofText s.toList = style at h
  cases h with
  | plain text =>
    intro empty
    rw [show s.toList = [] from empty] at text
    cases text
  | singleQuoted => simp [singleQuoted]
  | literal => simp [literal]
  | doubleQuoted => simp [doubleQuoted]

/-- An item of a list, with its line. -/
def itemText (s : String) : List Char := '-' :: ' ' :: closeLine (scalar s)

theorem closeLine_item (s : String) : closeLine ('-' :: ' ' :: scalar s) = itemText s :=
  closeLine_append (scalar_ne_nil s) ['-', ' ']

/-! ## §2. Entries. -/

/-- What stands behind the colon of an entry. -/
def valueText : Value → List Char
  | .null => " null\n".toList
  | .text s => ' ' :: closeLine (scalar s)
  | .list [] => " []\n".toList
  | .list items => '\n' :: items.flatMap itemText

theorem entry_eq (key : String) (value : Value) :
    entry key value = (key.toList ++ [':']) ++ valueText value := by
  cases value with
  | null => simp [entry, valueText]
  | text s =>
    rw [List.append_assoc]
    show closeLine (key.toList ++ ([':', ' '] ++ scalar s))
      = key.toList ++ ([':', ' '] ++ closeLine (scalar s))
    rw [closeLine_append (by simp), closeLine_append (scalar_ne_nil s)]
  | list items => cases items <;> simp [entry, valueText, closeLine_item]

theorem endsWord_valueText (value : Value) (more : List Char) :
    endsWord (valueText value ++ more) := by
  cases value with
  | null => rfl
  | text s => rfl
  | list items => cases items <;> rfl

/-- The names of fields: short, and made of letters and underscores. -/
def isName (cs : List Char) : Bool :=
  !cs.isEmpty && cs.all isNameChar && decide (cs.length ≤ 1024)

/-- The text of a mapping. -/
def entriesText (entries : List (String × Value)) : List Char :=
  entries.flatMap fun (key, value) => entry key value

/-- An item begins a line. -/
theorem startsLine_items (items : List String) {more : List Char} (hm : startsLine more) :
    startsLine (items.flatMap itemText ++ more) := by
  cases items with
  | nil => exact hm
  | cons s items => rfl

theorem startsLine_entry {key : String} (value : Value) (hn : isName key.toList)
    (more : List Char) : startsLine (entry key value ++ more) := by
  simp only [isName, Bool.and_eq_true, Bool.not_eq_true', List.isEmpty_eq_false_iff] at hn
  obtain ⟨⟨nonempty, chars⟩, -⟩ := hn
  obtain ⟨c, name, hc⟩ := List.exists_cons_of_ne_nil nonempty
  rw [entry_eq, hc]
  have letter := List.all_eq_true.1 chars c (by rw [hc]; exact List.mem_cons_self)
  simp [startsLine, letter]

theorem startsLine_entries {entries : List (String × Value)}
    (names : ∀ e ∈ entries, isName e.1.toList) : startsLine (entriesText entries) := by
  cases entries with
  | nil => rfl
  | cons e entries => exact startsLine_entry e.2 (names e List.mem_cons_self) _

/-! ## §3. Characters. -/

theorem mem_indentation {c : Char} {put : Bool} (h : c ∈ if put then indentation else []) :
    c = ' ' := by
  cases put with
  | true => exact List.eq_of_mem_replicate h
  | false => cases h

/-- Indentation adds spaces only. -/
theorem mem_indented {cs : List Char} {atLineStart : Bool} {c : Char}
    (h : c ∈ indented atLineStart cs) : c = ' ' ∨ c ∈ cs := by
  induction cs generalizing atLineStart with
  | nil => cases h
  | cons d cs ih =>
    rw [indented] at h
    split at h
    · rcases List.mem_cons.1 h with rfl | h
      · exact .inr List.mem_cons_self
      · exact (ih h).imp_right (List.mem_cons_of_mem _)
    · rcases List.mem_append.1 h with h | h
      · exact .inl (mem_indentation h)
      · rcases List.mem_cons.1 h with rfl | h
        · exact .inr List.mem_cons_self
        · exact (ih h).imp_right (List.mem_cons_of_mem _)

/-- Nor does anything else stand between single quotes. -/
theorem mem_singleQuoted_body {cs : List Char} {afterBreak : Bool} {c : Char}
    (h : c ∈ singleQuoted.body afterBreak cs) : c = ' ' ∨ c ∈ cs := by
  induction cs generalizing afterBreak with
  | nil => exact .inl (mem_indentation h)
  | cons d cs ih =>
    rw [singleQuoted.body] at h
    split at h
    · rcases List.mem_cons.1 h with rfl | h
      · exact .inr List.mem_cons_self
      · exact (ih h).imp_right (List.mem_cons_of_mem _)
    · simp only [List.mem_append] at h
      rcases h with (h | h) | h
      · exact .inl (mem_indentation h)
      · have same : c = d := by
          split at h
          · next quote => simpa [quote] using h
          · exact List.mem_singleton.1 h
        exact .inr (same ▸ List.mem_cons_self)
      · exact (ih h).imp_right (List.mem_cons_of_mem _)

theorem isReadable_hexDigits (width n : Nat) : ∀ c ∈ hexDigits width n, isReadable c := by
  have digit : ∀ d < 16, isReadable (hexDigit d) := by decide
  induction width generalizing n with
  | zero => simp [hexDigits]
  | succ width ih =>
    intro c hc
    rcases List.mem_append.1 hc with hc | hc
    · exact ih _ c hc
    · cases List.mem_singleton.1 hc
      exact digit _ (Nat.mod_lt _ (by decide))

theorem isReadable_escapeLetter {c letter : Char} (h : escapeLetter? c = some letter) :
    isReadable letter := by
  unfold escapeLetter? at h
  repeat
    rcases ite_eq_iff.1 h with ⟨-, ⟨⟩⟩ | ⟨-, h⟩
    · rfl
  cases h

/-- An escape is written in letters and digits. -/
theorem isReadable_escape {c d : Char} (h : d ∈ escape c) : isReadable d := by
  unfold escape at h
  split at h
  · next letter named =>
    simp only [List.mem_cons, List.not_mem_nil, or_false] at h
    rcases h with rfl | rfl
    · rfl
    · exact isReadable_escapeLetter named
  · have numeric : ∀ {width : Nat} {letter : Char}, isReadable letter →
        d ∈ '\\' :: letter :: hexDigits width c.toNat → isReadable d := by
      intro width letter named h
      rcases List.mem_cons.1 h with rfl | h
      · rfl
      · rcases List.mem_cons.1 h with rfl | h
        · exact named
        · exact isReadable_hexDigits _ _ d h
    split at h
    · exact numeric rfl h
    · split at h
      · exact numeric rfl h
      · exact numeric rfl h

theorem isReadable_literalHints {cs : List Char} {c : Char} (h : c ∈ literalHints cs) :
    isReadable c := by
  rw [Block.literalHints_eq] at h
  rcases List.mem_append.1 h with h | h
  · split at h
    · cases List.mem_singleton.1 h
      rfl
    · cases h
  · have signs : ∀ chomping, (Block.Chomping.sign chomping).all isReadable := by
      intro chomping
      cases chomping <;> decide
    exact List.all_eq_true.1 (signs _) c h

/-- **A text is written in characters that a document may hold.** -/
theorem isReadable_scalar {s : String} {c : Char} (hc : c ∈ scalar s) : isReadable c := by
  unfold scalar at hc
  have h := written_ofText s.toList
  generalize Style.ofText s.toList = style at h hc
  cases h with
  | plain text allowed => exact isReadable_of_isPrintable ((Plain.of_allowsPlain allowed).1 c hc).1
  | singleQuoted oneLine allowed =>
    simp only [Survey.allowsSingleQuotes, Survey.isClean, Bool.and_eq_true, List.all_eq_true]
      at allowed
    simp only [singleQuoted, List.mem_cons, List.cons_append, List.mem_append, List.not_mem_nil,
      or_false] at hc
    rcases hc with rfl | hc | rfl
    · rfl
    · rcases mem_singleQuoted_body hc with rfl | hc
      · rfl
      · exact isReadable_of_isPrintable (allowed.1.1 c hc)
    · rfl
  | literal allowed =>
    simp only [Survey.allowsLiteral, Survey.isClean, Bool.and_eq_true, List.all_eq_true] at allowed
    simp only [literal, List.mem_cons, List.cons_append, List.mem_append] at hc
    rcases hc with rfl | hc | rfl | hc
    · rfl
    · exact isReadable_literalHints hc
    · rfl
    · rcases mem_indented hc with rfl | hc
      · rfl
      · exact isReadable_of_isPrintable (allowed.1.1.2 c hc)
  | doubleQuoted =>
    simp only [doubleQuoted, List.mem_cons, List.cons_append, List.mem_append, List.not_mem_nil,
      or_false, List.mem_flatMap] at hc
    rcases hc with rfl | ⟨d, -, hc⟩ | rfl
    · rfl
    · split at hc
      · exact isReadable_escape hc
      · next noEscape =>
        cases List.mem_singleton.1 hc
        simp only [isEscaped, Bool.or_eq_true, Bool.not_eq_true', not_or, Bool.not_eq_false]
          at noEscape
        exact isReadable_of_isPrintable noEscape.1.1.1
    · rfl

theorem isReadable_closeLine {cs : List Char} (h : ∀ c ∈ cs, isReadable c) {c : Char}
    (hc : c ∈ closeLine cs) : isReadable c := by
  unfold closeLine at hc
  split at hc
  · exact h c hc
  · rcases List.mem_append.1 hc with hc | hc
    · exact h c hc
    · cases List.mem_singleton.1 hc
      rfl

theorem isReadable_valueText {value : Value} {c : Char} (hc : c ∈ valueText value) :
    isReadable c := by
  cases value with
  | null =>
    have all : " null\n".toList.all isReadable := by decide
    exact List.all_eq_true.1 all c hc
  | text s =>
    rcases List.mem_cons.1 hc with rfl | hc
    · rfl
    · exact isReadable_closeLine (fun _ => isReadable_scalar) hc
  | list items =>
    cases items with
    | nil =>
      have all : " []\n".toList.all isReadable := by decide
      exact List.all_eq_true.1 all c hc
    | cons s items =>
      rcases List.mem_cons.1 hc with rfl | hc
      · rfl
      · obtain ⟨s, -, hc⟩ := List.mem_flatMap.1 hc
        simp only [itemText, List.mem_cons] at hc
        rcases hc with rfl | rfl | hc
        · rfl
        · rfl
        · exact isReadable_closeLine (fun _ => isReadable_scalar) hc

/-- **A printed mapping is a text that a document may hold.** -/
theorem isReadable_entriesText {entries : List (String × Value)}
    (names : ∀ e ∈ entries, isName e.1.toList) :
    (entriesText entries).all isReadable := by
  rw [List.all_eq_true]
  intro c hc
  obtain ⟨⟨key, value⟩, he, hc⟩ := List.mem_flatMap.1 hc
  replace hc : c ∈ entry key value := hc
  rw [entry_eq] at hc
  simp only [List.mem_append, List.mem_cons, List.not_mem_nil, or_false] at hc
  rcases hc with (hc | rfl) | hc
  · have named := names _ he
    simp only [isName, Bool.and_eq_true, List.all_eq_true] at named
    exact isReadable_of_isPrintable (isNameChar_plain (named.1.2 c hc)).1
  · rfl
  · exact isReadable_valueText hc

end Printer

end ArtifactCourier.Yaml
