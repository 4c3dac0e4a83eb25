/-
  ArtifactCourier.Yaml.Quoted
  ──────────────────────────────────────
  **Quoted scalars.**

  Between single quotes only the quote itself is special: it is written twice.  Between
  double quotes a backslash begins an escape, and a backslash before a line break joins
  the lines.  Line breaks fold as they do in plain scalars.
-/
import ArtifactCourier.Yaml.Plain

namespace ArtifactCourier.Yaml

/-! ## §1. Escapes. -/

/-- The characters that one letter behind a backslash stands for. -/
def escapedByLetter? : Char → Option Char
  | '0' => some '\x00'
  | 'a' => some '\x07'
  | 'b' => some '\x08'
  | 't' => some '\t'
  | '\t' => some '\t'
  | 'n' => some '\n'
  | 'v' => some '\x0B'
  | 'f' => some '\x0C'
  | 'r' => some '\r'
  | 'e' => some '\x1B'
  | ' ' => some ' '
  | '"' => some '"'
  | '/' => some '/'
  | '\\' => some '\\'
  | 'N' => some '\u0085'
  | '_' => some '\u00A0'
  | 'L' => some '\u2028'
  | 'P' => some '\u2029'
  | _ => none

/-- How many hexadecimal digits follow the letter of a numeric escape. -/
def escapeDigits? : Char → Option Nat
  | 'x' => some 2
  | 'u' => some 4
  | 'U' => some 8
  | _ => none

def hexNumber? (digits : List Char) : Option Nat :=
  digits.foldlM (fun n c => (hexValue? c).map (n * 16 + ·)) 0

/-- The character of a code point; surrogates and what lies above U+10FFFF are none. -/
def charOfCode? (n : Nat) : Option Char :=
  if h : n.isValidChar then some (Char.ofNatAux n h) else none

/-- The character that an escape stands for, and how many characters behind the backslash
it takes. -/
def readEscape : List Char → Option (Char × Nat)
  | [] => none
  | letter :: rest =>
    match escapedByLetter? letter with
    | some c => some (c, 1)
    | none => do
      let n ← escapeDigits? letter
      let digits := rest.take n
      if digits.length = n then
        let code ← hexNumber? digits
        let c ← charOfCode? code
        some (c, 1 + n)
      else none

/-! ## §2. Reading. -/

namespace Quoted

/-- Reads on from behind the opening quote; `acc` is the text so far, the last character
first. -/
def readFrom (double : Bool) (place : Place) (gap : Gap) (acc : List Char) (cs : List Char) :
    Option ScalarRead :=
  match cs with
  | [] => none
  | c :: rest =>
    if isGapBlank c then readFrom double (place.advance 1) (gap.addBlank c) acc rest
    else if isBreak c then
      let n := breakLength c rest
      readFrom double (place.newLine n) (gap.addBreak (normalBreak c)) acc (rest.drop (n - 1))
    else if place.column = 0 ∧ isDocumentIndicator (c :: rest) then none
    else
      let acc := gap.reversedText ++ acc
      if double = false ∧ c = '\'' then
        if rest.head? = some '\'' then
          readFrom double (place.advance 2) .closed ('\'' :: acc) (rest.drop 1)
        else some ⟨acc.reverse, place.advance 1, rest, false⟩
      else if double ∧ c = '"' then some ⟨acc.reverse, place.advance 1, rest, false⟩
      else if double ∧ c = '\\' then
        match rest with
        | [] => none
        | d :: after =>
          if isBreak d then
            let n := breakLength d after
            readFrom double (place.newLine (1 + n)) (.lines none []) acc (after.drop (n - 1))
          else
            match readEscape (d :: after) with
            | none => none
            | some (e, n) =>
              readFrom double (place.advance (1 + n)) .closed (e :: acc) ((d :: after).drop n)
      else readFrom double (place.advance 1) .closed (c :: acc) rest
termination_by cs.length
decreasing_by all_goals (simp only [List.length_drop, List.length_cons]; omega)

end Quoted
end ArtifactCourier.Yaml
