/-
  ArtifactCourier.Proofs.Text.CommaList
  ──────────────────────────────────────
  **Splitting at commas undoes joining with commas.**

  A list of items can be joined with commas and got back if it is clean: no item is empty,
  has a comma in it, or begins or ends with a blank.  Blanks around the items and empty items
  between them say nothing.  Every text spells one clean list in this way, so nothing but clean
  lists ever comes out of a text.

    • `exists_trim`, `trim_padded` — trimming takes blanks from both ends and nothing else,
    • `splitList_append` — a comma separates the items before it from those behind it,
    • `Spells` — the ways in which a list of items can be written,
    • `splitList_inverts_join` — the law.
-/
import Mathlib.Data.List.TakeWhile
import ArtifactCourier.Text.CommaList

namespace ArtifactCourier.Text

/-! ## §1. Trimming. -/

/-- There is nothing but blanks. -/
def AllBlank (cs : List Char) : Prop := ∀ c ∈ cs, isBlank c = true

instance (cs : List Char) : Decidable (AllBlank cs) := List.decidableBAll _ cs

variable {cs before after : List Char}

theorem trimStart_append (h : AllBlank before) : trimStart (before ++ cs) = trimStart cs :=
  List.dropWhile_append_of_pos h

theorem trimEnd_append (h : AllBlank after) : trimEnd (cs ++ after) = trimEnd cs := by
  unfold trimEnd
  rw [List.reverse_append, List.dropWhile_append_of_pos]
  exact fun c hc => h c (List.mem_reverse.1 hc)

theorem exists_trimStart (cs : List Char) : ∃ before, AllBlank before ∧ cs = before ++ trimStart cs :=
  ⟨cs.takeWhile isBlank, fun _ hc => List.mem_takeWhile_imp hc,
    List.takeWhile_append_dropWhile.symm⟩

theorem exists_trimEnd (cs : List Char) : ∃ after, AllBlank after ∧ cs = trimEnd cs ++ after := by
  obtain ⟨front, blank, reversed⟩ := exists_trimStart cs.reverse
  refine ⟨front.reverse, fun c hc => blank c (List.mem_reverse.1 hc), ?_⟩
  calc
    cs = cs.reverse.reverse := cs.reverse_reverse.symm
    _ = (front ++ trimStart cs.reverse).reverse := congrArg _ reversed
    _ = trimEnd cs ++ front.reverse := List.reverse_append

/-- **What is trimmed off**: blanks in front, and blanks behind. -/
theorem exists_trim (cs : List Char) :
    ∃ before after, AllBlank before ∧ AllBlank after ∧ cs = before ++ trim cs ++ after := by
  obtain ⟨before, front, hstart⟩ := exists_trimStart cs
  obtain ⟨after, back, hend⟩ := exists_trimEnd (trimStart cs)
  refine ⟨before, after, front, back, ?_⟩
  rw [List.append_assoc, trim, ← hend, ← hstart]

/-- Nothing is left of a text that is trimmed if and only if all of it is blank. -/
theorem trim_isEmpty_iff : (trim cs).isEmpty = true ↔ AllBlank cs := by
  rw [List.isEmpty_iff]
  constructor
  · intro nothing
    obtain ⟨before, after, front, back, whole⟩ := exists_trim cs
    rw [whole, nothing, List.append_nil]
    exact fun c hc => (List.mem_append.1 hc).elim (front c) (back c)
  · intro blank
    have start : trimStart cs = [] := List.dropWhile_eq_nil_iff.2 blank
    rw [trim, start]
    rfl

theorem trim_eq_nil (h : AllBlank cs) : trim cs = [] := List.isEmpty_iff.1 (trim_isEmpty_iff.2 h)

/-- A trimmed text does not begin with a blank. -/
theorem isBlank_head?_trim (cs : List Char) : ∀ c ∈ (trim cs).head?, isBlank c = false := by
  intro c hc
  obtain ⟨after, -, hend⟩ := exists_trimEnd (trimStart cs)
  -- What is taken from the end leaves the beginning as it is.
  have first : (trimStart cs).head? = some c := by
    rw [hend, List.head?_append, show (trimEnd (trimStart cs)).head? = some c from hc]
    rfl
  have visible := List.head?_dropWhile_not isBlank cs
  rw [show (List.dropWhile isBlank cs).head? = some c from first] at visible
  exact visible

/-- A trimmed text does not end with a blank. -/
theorem isBlank_getLast?_trim (cs : List Char) : ∀ c ∈ (trim cs).getLast?, isBlank c = false := by
  intro c hc
  unfold trim trimEnd at hc
  rw [List.getLast?_reverse] at hc
  have visible := List.head?_dropWhile_not isBlank (trimStart cs).reverse
  rw [hc] at visible
  exact visible

/-- **Blanks around a text are trimmed off**, and no more than those. -/
theorem trim_padded (front : AllBlank before) (back : AllBlank after)
    (first : ∀ c ∈ cs.head?, isBlank c = false) (last : ∀ c ∈ cs.getLast?, isBlank c = false) :
    trim (before ++ cs ++ after) = cs := by
  cases cs with
  | nil =>
    apply trim_eq_nil
    rw [List.append_nil]
    exact fun c hc => (List.mem_append.1 hc).elim (front c) (back c)
  | cons c rest =>
    have visible : isBlank c = false := first c rfl
    have start : trimStart (c :: rest ++ after) = c :: rest ++ after := by
      simp [trimStart, visible]
    have alone := trim_eq_self first last
    rw [trim, trimStart, List.dropWhile_cons, visible] at alone
    rw [trim, List.append_assoc, trimStart_append front, start, trimEnd_append back]
    exact alone

/-! ## §2. Splitting. -/

theorem pieces_of_noComma (h : ',' ∉ cs) : pieces cs = [cs] := by
  induction cs with
  | nil => rfl
  | cons c cs ih =>
    obtain ⟨hc, hcs⟩ := List.ne_and_not_mem_of_not_mem_cons h
    rw [pieces, if_neg (Ne.symm hc), ih hcs]

/-- There are no commas in what commas separate. -/
theorem comma_notMem_of_mem_pieces {p : List Char} (h : p ∈ pieces cs) : ',' ∉ p := by
  induction cs generalizing p with
  | nil =>
    cases List.mem_singleton.1 h
    exact List.not_mem_nil
  | cons c cs ih =>
    rw [pieces] at h
    split at h
    · rcases List.mem_cons.1 h with rfl | h
      · exact List.not_mem_nil
      · exact ih h
    · next other =>
      cases hp : pieces cs with
      | nil => exact absurd hp (pieces_ne_nil cs)
      | cons q qs =>
        rw [hp] at h ih
        rcases List.mem_cons.1 h with rfl | h
        · exact fun hq => (List.mem_cons.1 hq).elim (fun same => other same.symm)
            (ih List.mem_cons_self)
        · exact ih (List.mem_cons_of_mem _ h)

/-- The pieces of a text, joined again. -/
theorem intercalate_pieces (cs : List Char) : [','].intercalate (pieces cs) = cs := by
  induction cs with
  | nil => rfl
  | cons c cs ih =>
    cases hp : pieces cs with
    | nil => exact absurd hp (pieces_ne_nil cs)
    | cons q qs =>
      rw [hp] at ih
      rw [pieces]
      split
      · next comma =>
        rw [hp, List.intercalate_cons_cons, ih, comma]
        rfl
      · rw [hp]
        cases qs with
        | nil =>
          rw [List.intercalate_singleton] at ih ⊢
          rw [ih]
        | cons q' qs =>
          rw [List.intercalate_cons_cons] at ih ⊢
          rw [← ih]
          rfl

theorem splitList_append (a b : String) :
    splitList (a ++ "," ++ b) = splitList a ++ splitList b := by
  unfold splitList commaItems
  rw [String.toList_append, String.toList_append, List.append_assoc]
  show List.map String.ofList ((List.map trim (pieces (a.toList ++ ',' :: b.toList))).filter _) = _
  rw [pieces_append_comma, List.map_append, List.filter_append, List.map_append]

/-- The items of some texts that are joined are the items of each, in order. -/
theorem splitList_intercalate (texts : List String) :
    splitList (",".intercalate texts) = texts.flatMap splitList := by
  induction texts with
  | nil => rfl
  | cons text texts ih =>
    cases texts with
    | nil => rw [String.intercalate_singleton, List.flatMap_cons, List.flatMap_nil, List.append_nil]
    | cons next texts =>
      rw [String.intercalate_cons_cons, splitList_append, ih, List.flatMap_cons (x := text)]

/-- A text without commas has one item at most. -/
theorem splitList_of_noComma {text : String} (h : ',' ∉ text.toList) :
    splitList text =
      if (trim text.toList).isEmpty then [] else [String.ofList (trim text.toList)] := by
  unfold splitList commaItems
  rw [pieces_of_noComma h]
  cases hempty : (trim text.toList).isEmpty <;> simp [hempty]

theorem splitList_of_blank {gap : String} (h : AllBlank gap.toList) : splitList gap = [] := by
  have noComma : ',' ∉ gap.toList := fun hc => absurd (h _ hc) (by decide)
  rw [splitList_of_noComma noComma, if_pos (trim_isEmpty_iff.2 h)]

/-! ## §3. Clean lists. -/

/-- An item that can stand between two commas: there is something of it, no comma is in it, and
it neither begins nor ends with a blank. -/
structure IsItem (item : String) : Prop where
  nonempty : item ≠ ""
  noComma : ',' ∉ item.toList
  first : ∀ c ∈ item.toList.head?, isBlank c = false
  last : ∀ c ∈ item.toList.getLast?, isBlank c = false

/-- A list whose items can all stand between commas. -/
def IsClean (items : List String) : Prop := ∀ item ∈ items, IsItem item

/-- **The ways to write a list of items**, as texts that are still to be joined: with any blanks
around the items, and with any number of texts between them in which there is nothing. -/
inductive Spells : List String → List String → Prop
  | nil : Spells [] []
  | gap {items texts : List String} {gap : String} :
      AllBlank gap.toList → Spells items texts → Spells items (gap :: texts)
  | item {items texts : List String} {item before after : String} :
      AllBlank before.toList → AllBlank after.toList → Spells items texts →
      Spells (item :: items) ((before ++ item ++ after) :: texts)

/-- A list can be written as it is. -/
theorem Spells.refl (items : List String) : Spells items items := by
  induction items with
  | nil => exact .nil
  | cons item items ih =>
    have nothing : AllBlank "".toList := fun _ hc => absurd hc List.not_mem_nil
    have spelled : Spells (item :: items) (("" ++ item ++ "") :: items) := .item nothing nothing ih
    simpa using spelled

theorem Spells.append {items items' texts texts' : List String} (h : Spells items texts)
    (h' : Spells items' texts') : Spells (items ++ items') (texts ++ texts') := by
  induction h with
  | nil => exact h'
  | gap blank _ ih => exact .gap blank ih
  | item front back _ ih => exact .item front back ih

/-- An item with blanks around it is split off as it is. -/
theorem splitList_item {item before after : String} (h : IsItem item)
    (front : AllBlank before.toList) (back : AllBlank after.toList) :
    splitList (before ++ item ++ after) = [item] := by
  have blankComma : isBlank ',' = false := by decide
  have noComma : ',' ∉ (before ++ item ++ after).toList := by
    simp only [String.toList_append, List.mem_append, not_or]
    refine ⟨⟨fun hc => ?_, h.noComma⟩, fun hc => ?_⟩
    · exact absurd (front _ hc) (by simp [blankComma])
    · exact absurd (back _ hc) (by simp [blankComma])
  have trimmed : trim (before ++ item ++ after).toList = item.toList := by
    rw [String.toList_append, String.toList_append]
    exact trim_padded front back h.first h.last
  rw [splitList_of_noComma noComma, trimmed, if_neg (by simpa using h.nonempty),
    String.ofList_toList]

/-- **Splitting gives back what was joined.** -/
theorem splitList_of_spells {items texts : List String} (clean : IsClean items)
    (h : Spells items texts) : splitList (",".intercalate texts) = items := by
  rw [splitList_intercalate]
  induction h with
  | nil => rfl
  | gap blank _ ih =>
    rw [List.flatMap_cons, splitList_of_blank blank, ih clean, List.nil_append]
  | item front back _ ih =>
    obtain ⟨hitem, hitems⟩ := List.forall_mem_cons.1 clean
    rw [List.flatMap_cons, splitList_item hitem front back, ih hitems]
    rfl

/-- A piece without commas spells the one item that is left of it, or nothing. -/
theorem spells_piece {text : String} (h : ',' ∉ text.toList) :
    IsClean (splitList text) ∧ Spells (splitList text) [text] := by
  rw [splitList_of_noComma h]
  split
  · next nothing =>
    exact ⟨fun _ hitem => absurd hitem List.not_mem_nil, .gap (trim_isEmpty_iff.1 nothing) .nil⟩
  · next something =>
    obtain ⟨before, after, front, back, whole⟩ := exists_trim text.toList
    constructor
    · intro item hitem
      cases List.mem_singleton.1 hitem
      refine ⟨?_, ?_, ?_, ?_⟩
      · simpa using something
      · rw [String.toList_ofList]
        intro hc
        rw [whole] at h
        exact h (List.mem_append_left _ (List.mem_append_right _ hc))
      · rw [String.toList_ofList]
        exact isBlank_head?_trim _
      · rw [String.toList_ofList]
        exact isBlank_getLast?_trim _
    · have written : text = String.ofList before ++ String.ofList (trim text.toList)
          ++ String.ofList after := by
        apply String.toList_injective
        simpa using whole
      have spelled : Spells [String.ofList (trim text.toList)]
          [String.ofList before ++ String.ofList (trim text.toList) ++ String.ofList after] :=
        .item (by simpa using front) (by simpa using back) .nil
      rwa [← written] at spelled

/-- Texts without commas spell what they are split into, one after the other. -/
theorem spells_texts {texts : List String} (h : ∀ text ∈ texts, ',' ∉ text.toList) :
    IsClean (texts.flatMap splitList) ∧ Spells (texts.flatMap splitList) texts := by
  induction texts with
  | nil => exact ⟨fun _ hitem => absurd hitem List.not_mem_nil, .nil⟩
  | cons text texts ih =>
    obtain ⟨htext, htexts⟩ := List.forall_mem_cons.1 h
    obtain ⟨cleanFirst, first⟩ := spells_piece htext
    obtain ⟨cleanRest, rest⟩ := ih htexts
    rw [List.flatMap_cons]
    exact ⟨fun item hitem => (List.mem_append.1 hitem).elim (cleanFirst item) (cleanRest item),
      first.append rest⟩

/-- **Every text spells a clean list**: the one that it is split into. -/
theorem exists_spells (v : String) :
    IsClean (splitList v) ∧ ∃ texts, Spells (splitList v) texts ∧ v = ",".intercalate texts := by
  have joined : v = ",".intercalate ((pieces v.toList).map String.ofList) := by
    apply String.toList_injective
    have same : String.toList ∘ String.ofList = id := funext fun _ => String.toList_ofList
    rw [String.toList_intercalate, List.map_map, same, List.map_id]
    exact (intercalate_pieces v.toList).symm
  have noCommas : ∀ text ∈ (pieces v.toList).map String.ofList, ',' ∉ text.toList := by
    intro text htext
    obtain ⟨p, hp, rfl⟩ := List.mem_map.1 htext
    rw [String.toList_ofList]
    exact comma_notMem_of_mem_pieces hp
  obtain ⟨clean, spells⟩ := spells_texts noCommas
  rw [← splitList_intercalate, ← joined] at clean spells
  exact ⟨clean, _, spells, joined⟩

/-- **Splitting at commas undoes joining with commas.**  Whatever a text is split into is a clean
list, and the text is a way to write it; and every way to write a clean list is split into that
list.  A comma between two texts separates their items, and a list that a text was split into
can be joined and split again. -/
theorem splitList_inverts_join :
    (∀ v, IsClean (splitList v) ∧
      ∃ texts, Spells (splitList v) texts ∧ v = ",".intercalate texts) ∧
    (∀ items texts, IsClean items → Spells items texts →
      splitList (",".intercalate texts) = items) ∧
    (∀ a b, splitList (a ++ "," ++ b) = splitList a ++ splitList b) ∧
    ∀ v, splitList (",".intercalate (splitList v)) = splitList v :=
  ⟨exists_spells, fun _ _ => splitList_of_spells, splitList_append,
    fun v => splitList_of_spells (exists_spells v).1 (.refl _)⟩

/-- Blanks that take several bytes, an empty item, and an item with a blank inside. -/
theorem splitList_inverts_join_spaced :
    IsClean ["a b", "é"] ∧
    Spells ["a b", "é"] ["\u3000a b", " \t", "\u0085é\u00A0", ""] ∧
    splitList (",".intercalate ["\u3000a b", " \t", "\u0085é\u00A0", ""]) = ["a b", "é"] := by
  have clean : IsClean ["a b", "é"] := by
    intro item hitem
    simp only [List.mem_cons, List.not_mem_nil, or_false] at hitem
    rcases hitem with rfl | rfl <;>
      exact ⟨by decide, by decide, by rintro _ ⟨⟩; decide, by rintro _ ⟨⟩; decide⟩
  have spaced : Spells ["a b", "é"] ["\u3000a b", " \t", "\u0085é\u00A0", ""] := by
    have wide : AllBlank "\u3000".toList := by decide
    have none : AllBlank "".toList := by decide
    have nextLine : AllBlank "\u0085".toList := by decide
    have noBreak : AllBlank "\u00A0".toList := by decide
    exact .item wide none (.gap (by decide) (.item nextLine noBreak (.gap (by decide) .nil)))
  exact ⟨clean, spaced, splitList_inverts_join.2.1 _ _ clean spaced⟩

end ArtifactCourier.Text
