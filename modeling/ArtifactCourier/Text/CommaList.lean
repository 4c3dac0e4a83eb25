/-
  ArtifactCourier.Text.CommaList
  ──────────────────────────────────────
  **Lists written with commas.**

  An item is what stands between two commas, trimmed of blanks; items of which
  nothing is left are dropped.  `pieces` cuts at every comma and keeps what is
  between, `commaItems` trims and filters the pieces.
-/
import ArtifactCourier.Text.Blank

namespace ArtifactCourier.Text

/-- The stretches of `cs` between its commas, in order: one more than there are commas. -/
def pieces : List Char → List (List Char)
  | [] => [[]]
  | c :: cs =>
    if c = ',' then [] :: pieces cs
    else
      match pieces cs with
      | [] => [[c]]
      | p :: ps => (c :: p) :: ps

/-- There is always a last piece, if only an empty one. -/
theorem pieces_ne_nil (cs : List Char) : pieces cs ≠ [] := by
  cases cs with
  | nil => simp [pieces]
  | cons c cs =>
    simp only [pieces]
    split
    · simp
    · split <;> simp

/-- A comma between two texts separates their pieces. -/
theorem pieces_append_comma (a b : List Char) :
    pieces (a ++ ',' :: b) = pieces a ++ pieces b := by
  induction a with
  | nil => simp [pieces]
  | cons c a ih =>
    by_cases h : c = ','
    · simp [pieces, h, ih]
    · cases hp : pieces a with
      | nil => exact absurd hp (pieces_ne_nil a)
      | cons p ps => simp [pieces, h, ih, hp]

/-- The items of a comma-separated text: trimmed, and without the empty ones. -/
def commaItems (cs : List Char) : List (List Char) :=
  ((pieces cs).map trim).filter (fun item => !item.isEmpty)

/-- The items of a comma-separated text, as texts. -/
def splitList (value : String) : List String :=
  (commaItems value.toList).map String.ofList

end ArtifactCourier.Text
