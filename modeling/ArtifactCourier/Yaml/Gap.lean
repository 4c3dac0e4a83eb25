/-
  ArtifactCourier.Yaml.Gap
  ──────────────────────────────────────
  **White space inside a scalar.**

  Between the words of a plain or quoted scalar there may be blanks and line breaks.
  Blanks within a line are kept.  A single line break is read as a space; of several,
  the first is dropped and the rest are kept; blanks around breaks are dropped.
-/
import ArtifactCourier.Yaml.Character

namespace ArtifactCourier.Yaml

/-- The white space since the last word. -/
inductive Gap where
  /-- None. -/
  | closed
  /-- Blanks in one line, the last one first. -/
  | blanks (reversed : List Char)
  /-- Line breaks: the first one, unless it was escaped, and the later ones, the last first. -/
  | lines (first : Option Char) (reversed : List Char)
deriving DecidableEq, Repr

namespace Gap

/-- One more blank.  After a line break it is indentation and says nothing. -/
def addBlank (c : Char) : Gap → Gap
  | closed => blanks [c]
  | blanks cs => blanks (c :: cs)
  | lines first more => lines first more

/-- One more line break, as it is read. -/
def addBreak (c : Char) : Gap → Gap
  | lines first more => lines first (c :: more)
  | _ => lines (some c) []

def isMultiLine : Gap → Bool
  | lines _ _ => true
  | _ => false

/-- What the gap is read as, the last character first. -/
def reversedText : Gap → List Char
  | closed => []
  | blanks cs => cs
  | lines (some '\n') [] => [' ']
  | lines (some '\n') more => more
  | lines (some c) more => more ++ [c]
  | lines none more => more

/-- A gap of one line feed is read as a space. -/
@[simp] theorem reversedText_single : reversedText (lines (some '\n') []) = [' '] := rfl

/-- No gap is read as nothing. -/
@[simp] theorem reversedText_closed : reversedText closed = [] := rfl

end Gap
end ArtifactCourier.Yaml
