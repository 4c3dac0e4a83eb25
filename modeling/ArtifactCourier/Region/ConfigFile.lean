/-
  ArtifactCourier.Region.ConfigFile
  ──────────────────────────────────────
  **The settings of a user, by profile.**

  A settings file has sections, each for a profile, and in them lines `key = value`.
  Blank lines, lines that begin with a number sign, lines that are not text, and lines
  before the first section say nothing.  Of a key that is set twice the later value holds.
-/
import ArtifactCourier.Text.Blank
import ArtifactCourier.Text.Raw

namespace ArtifactCourier.Region.ConfigFile

/-- What a line of a settings file says. -/
inductive Line where
  /-- A profile's section begins. -/
  | section_ (profile : String)
  /-- A key has a value. -/
  | setting (key value : String)
deriving DecidableEq, Repr

def trimSpaces (cs : List Char) : List Char :=
  ((cs.dropWhile (· == ' ')).reverse.dropWhile (· == ' ')).reverse

/-- The word that may stand before the name of a profile. -/
def profileWord : List Char := "profile ".toList

/-- The profile whose section a line begins: the line is a name between square brackets. -/
def profile? (cs : List Char) : Option String :=
  match Text.trim cs with
  | '[' :: rest =>
    let inner := rest.dropLast
    if rest.getLast? ≠ some ']' ∨ inner = [] ∨ ']' ∈ inner then none
    else
      let named := inner.drop profileWord.length
      some (String.ofList (if profileWord.isPrefixOf inner && named ≠ [] then named else inner))
  | _ => none

/-- The setting that a line makes. -/
def setting? (cs : List Char) : Option (String × String) :=
  let key := trimSpaces (cs.takeWhile (· ≠ '='))
  let value := trimSpaces ((cs.dropWhile (· ≠ '=')).drop 1)
  if key = [] ∨ value = [] then none else some (String.ofList key, String.ofList value)

/-- What a line says, if anything. -/
def Line.ofText? (text : String) : Option Line :=
  let cs := trimSpaces text.toList
  if cs = [] ∨ cs.head? = some '#' then none
  else
    match profile? cs with
    | some p => some (.section_ p)
    | none => (setting? cs).map fun (key, value) => .setting key value

def lineFeed : UInt8 := 0x0A

/-- The byte that may stand before it. -/
def carriageReturn : UInt8 := 0x0D

/-- The lines of a file without what ends them; a carriage return at the very end of the file
ends no line. -/
def splitLines : List UInt8 → List (List UInt8)
  | [] => []
  | b :: bs =>
    if b = lineFeed then [] :: splitLines bs
    else if b = carriageReturn ∧ bs.head? = some lineFeed then splitLines bs
    else
      match bs, splitLines bs with
      | [], _ => [[b]]
      | _ :: _, line :: lines => (b :: line) :: lines
      | _ :: _, [] => [[b]]

/-- The lines of a file that say something. -/
def linesOf (bytes : List UInt8) : List Line :=
  (splitLines bytes).filterMap fun line => (RawText.toString? ⟨line⟩).bind Line.ofText?

/-- The value of a key in a profile's sections; `current` is the section that the lines begin
in, `found` what was found before. -/
def valueFrom (profile key : String) (current found : Option String) : List Line → Option String
  | [] => found
  | .section_ p :: rest => valueFrom profile key (some p) found rest
  | .setting k v :: rest =>
    valueFrom profile key current
      (if current = some profile ∧ k = key then some v else found) rest

/-- **The value of a key in the sections of a profile.** -/
def value? (profile key : String) (bytes : List UInt8) : Option String :=
  valueFrom profile key none none (linesOf bytes)

end ArtifactCourier.Region.ConfigFile
