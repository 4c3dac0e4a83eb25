/-
  ArtifactCourier.Text.Blank
  ──────────────────────────────────────
  **The White_Space property of Unicode, and trimming by it.**

  Lists on the command line and the bucket name are trimmed of every character
  that Unicode calls White_Space, not only of the ASCII blanks.  Trimming works on
  the list of characters, so its laws are laws about lists:

    • `trim_eq_self` — text that neither begins nor ends with a blank is kept,
    • `isBlank_of_isWhitespace` — the ASCII blanks are among the blanks.
-/

namespace ArtifactCourier.Text

/-! ## §1. The property. -/

/-- The characters with the Unicode property White_Space. -/
def isBlank (c : Char) : Bool :=
  (0x09 ≤ c.val && c.val ≤ 0x0D) || c.val == 0x20 || c.val == 0x85 || c.val == 0xA0
    || c.val == 0x1680 || (0x2000 ≤ c.val && c.val ≤ 0x200A) || c.val == 0x2028
    || c.val == 0x2029 || c.val == 0x202F || c.val == 0x205F || c.val == 0x3000

/-- Every ASCII blank is a blank. -/
theorem isBlank_of_isWhitespace {c : Char} (h : c.isWhitespace = true) : isBlank c = true := by
  simp only [Char.isWhitespace, Bool.or_eq_true, decide_eq_true_eq] at h
  rcases h with ((rfl | rfl) | rfl) | rfl <;> decide

/-! ## §2. Trimming. -/

def trimStart (cs : List Char) : List Char := cs.dropWhile isBlank

def trimEnd (cs : List Char) : List Char := (cs.reverse.dropWhile isBlank).reverse

def trim (cs : List Char) : List Char := trimEnd (trimStart cs)

@[simp] theorem trim_nil : trim [] = [] := rfl

/-- Text whose first and last characters are no blanks is left alone. -/
theorem trim_eq_self {cs : List Char} (front : ∀ c ∈ cs.head?, isBlank c = false)
    (back : ∀ c ∈ cs.getLast?, isBlank c = false) : trim cs = cs := by
  have start : trimStart cs = cs := by
    cases cs with
    | nil => rfl
    | cons c r => simp [trimStart, front c (by simp)]
  have finish : trimEnd cs = cs := by
    rcases cs.eq_nil_or_concat with rfl | ⟨r, c, rfl⟩
    · rfl
    · simp [trimEnd, back c (by simp)]
  rw [trim, start, finish]

end ArtifactCourier.Text
