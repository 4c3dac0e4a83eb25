/-
  ArtifactCourier.Yaml.Plain
  ──────────────────────────────────────
  **Plain scalars: text without quotes.**

  A plain scalar goes on over blanks and line breaks as long as the text stays
  indented.  It ends before a colon that ends a word, before a comment, before a
  document indicator, and, inside brackets, before a comma or a bracket.
-/
import ArtifactCourier.Yaml.Gap

namespace ArtifactCourier.Yaml

/-- What has been read of a text: a scalar, and where it stopped. -/
structure ScalarRead where
  text : List Char
  place : Place
  rest : List Char
  /-- Whether a line break was the last thing read over. -/
  endsInBreak : Bool

namespace Plain

/-- Where a plain scalar stands. -/
structure Context where
  /-- Whether it stands inside brackets. -/
  inFlow : Bool
  /-- The column that later lines must reach. -/
  indent : Int

/-- The brackets and the comma: they end a plain scalar inside brackets. -/
def isFlowIndicator (c : Char) : Bool := ",[]\x7b\x7d".toList.contains c

/-- What is left to decide about the text at a character that is no white space. -/
inductive Decision where
  /-- The character belongs to the scalar. -/
  | take
  /-- The scalar ended before it. -/
  | stop
  /-- The text is not well formed. -/
  | fail
deriving DecidableEq

/-- Whether `c`, with `rest` behind it, belongs to the scalar. -/
def decide (ctx : Context) (place : Place) (gap : Gap) (c : Char) (rest : List Char) : Decision :=
  if gap ≠ .closed ∧
      (c = '#' ∨ (place.column = 0 ∧ isDocumentIndicator (c :: rest)) ∨
        (ctx.inFlow = false ∧ (place.column : Int) < ctx.indent)) then .stop
  else if c = ':' ∧ ctx.inFlow ∧ (rest.head?.any fun d => isFlowIndicator d || d == '?') then .fail
  else if c = ':' ∧ endsWord rest then .stop
  else if ctx.inFlow ∧ isFlowIndicator c then .stop
  else .take

/-- Reads on; `acc` is the text so far, the last character first. -/
def readFrom (ctx : Context) (place : Place) (gap : Gap) (acc : List Char) :
    List Char → Option ScalarRead
  | [] => some ⟨acc.reverse, place, [], gap.isMultiLine⟩
  | c :: rest =>
    if isGapBlank c then
      if c = '\t' ∧ gap.isMultiLine ∧ (place.column : Int) < ctx.indent then none
      else readFrom ctx (place.advance 1) (gap.addBlank c) acc rest
    else if isBreak c then
      if isHalfBreak c rest then readFrom ctx place.hold gap acc rest
      else readFrom ctx (place.newLine 1) (gap.addBreak (normalBreak c)) acc rest
    else
      match decide ctx place gap c rest with
      | .fail => none
      | .stop => some ⟨acc.reverse, place, c :: rest, gap.isMultiLine⟩
      | .take => readFrom ctx (place.advance 1) .closed (c :: (gap.reversedText ++ acc)) rest

end Plain
end ArtifactCourier.Yaml
