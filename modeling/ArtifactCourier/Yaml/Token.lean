/-
  ArtifactCourier.Yaml.Token
  ──────────────────────────────────────
  **The tokens of a document.**

  Block structure, which a document shows by indentation, appears in the tokens as
  explicit starts and ends, and a mapping key is announced by a token of its own in
  front of it, however it was written.
-/
import ArtifactCourier.Yaml.Character

namespace ArtifactCourier.Yaml

/-- How a scalar is written. -/
inductive Style where
  | plain
  | singleQuoted
  | doubleQuoted
  | literal
  | folded
deriving DecidableEq, Repr

/-- A token. -/
inductive Token where
  | streamEnd
  /-- The version of the language that a document claims. -/
  | version (major minor : Nat)
  /-- What a tag handle abbreviates in a document. -/
  | tagHandle (handle tagPrefix : List Char)
  | documentStart
  | documentEnd
  | blockSequenceStart
  | blockMappingStart
  | blockEnd
  | flowSequenceStart
  | flowSequenceEnd
  | flowMappingStart
  | flowMappingEnd
  | blockEntry
  | flowEntry
  | key
  | value
  | alias (name : List Char)
  | anchor (name : List Char)
  | tag (handle suffix : List Char)
  | scalar (style : Style) (text : List Char)
deriving DecidableEq, Repr

end ArtifactCourier.Yaml
