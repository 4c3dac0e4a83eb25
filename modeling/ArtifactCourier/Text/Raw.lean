/-
  ArtifactCourier.Text.Raw
  ──────────────────────────────────────
  **Text as the operating system holds it.**

  File names, paths and command-line words are byte strings that are UTF-8 by
  habit only.  `RawText` keeps the bytes; `toString?` reads them as text when they
  are well-formed, and `lossy` shows them in messages, one U+FFFD for each
  ill-formed stretch.  A stretch is the longest run of bytes that could still have
  begun a character, so a truncated character is shown as a single U+FFFD.
-/

namespace ArtifactCourier

/-- A byte string that usually, but not always, is UTF-8 text. -/
structure RawText where
  /-- The bytes, in order. -/
  bytes : List UInt8
deriving DecidableEq, Repr, Inhabited

namespace RawText

/-! ## §1. To and from text. -/

def ofString (s : String) : RawText := ⟨s.toList.flatMap String.utf8EncodeChar⟩

/-- The text these bytes encode, if they are well-formed UTF-8. -/
def toString? (t : RawText) : Option String := String.fromUTF8? t.bytes.toByteArray

def isText (t : RawText) : Bool := t.toString?.isSome

def isEmpty (t : RawText) : Bool := t.bytes.isEmpty

def append (a b : RawText) : RawText := ⟨a.bytes ++ b.bytes⟩

instance : Append RawText := ⟨append⟩

@[simp] theorem bytes_append (a b : RawText) : (a ++ b).bytes = a.bytes ++ b.bytes := rfl

/-- The bytes of `ofString s` are those that the string itself is stored in. -/
theorem toByteArray_ofString (s : String) : (ofString s).bytes.toByteArray = s.toByteArray := by
  rw [← String.utf8Encode_toList]
  rfl

/-- **Text survives the trip through bytes.** -/
@[simp] theorem toString?_ofString (s : String) : (ofString s).toString? = some s := by
  rw [toString?, toByteArray_ofString, String.fromUTF8?]
  simp [s.isValidUTF8, String.fromUTF8]

/-! ## §2. Well-formed and ill-formed stretches. -/

/-- Whether a byte continues a character. -/
def isContinuation (b : UInt8) : Bool := 0x80 ≤ b && b ≤ 0xBF

/-- Whether `second` may follow the leading byte `lead` of a character of three or four
bytes: this excludes overlong forms, surrogates and what lies above U+10FFFF. -/
def fitsLead (lead second : UInt8) : Bool :=
  if lead == 0xE0 then 0xA0 ≤ second && second ≤ 0xBF
  else if lead == 0xED then 0x80 ≤ second && second ≤ 0x9F
  else if lead == 0xF0 then 0x90 ≤ second && second ≤ 0xBF
  else if lead == 0xF4 then 0x80 ≤ second && second ≤ 0x8F
  else isContinuation second

/-- The character that a leading byte and its continuation bytes stand for: six bits from each
continuation byte, the rest from the leading one. -/
def assemble (leadBits : Nat) (continuation : List UInt8) : Char :=
  Char.ofNat (continuation.foldl (fun n b => n * 64 + (b.toNat - 0x80)) leadBits)

/-- What a nonempty byte string begins with: a character, or else a stretch of bytes that is
none; and what follows. -/
def front (b : UInt8) (rest : List UInt8) : Option Char × List UInt8 :=
  if b < 0x80 then (some (Char.ofNat b.toNat), rest)
  else if 0xC2 ≤ b && b ≤ 0xDF then
    match rest with
    | c :: r => if isContinuation c then (some (assemble (b.toNat - 0xC0) [c]), r) else (none, rest)
    | [] => (none, [])
  else if 0xE0 ≤ b && b ≤ 0xEF then
    match rest with
    | c :: r =>
      if fitsLead b c then
        match r with
        | d :: q =>
          if isContinuation d then (some (assemble (b.toNat - 0xE0) [c, d]), q) else (none, r)
        | [] => (none, [])
      else (none, rest)
    | [] => (none, [])
  else if 0xF0 ≤ b && b ≤ 0xF4 then
    match rest with
    | c :: r =>
      if fitsLead b c then
        match r with
        | d :: q =>
          if isContinuation d then
            match q with
            | e :: p =>
              if isContinuation e then (some (assemble (b.toNat - 0xF0) [c, d, e]), p)
              else (none, q)
            | [] => (none, [])
          else (none, r)
        | [] => (none, [])
      else (none, rest)
    | [] => (none, [])
  else (none, rest)

/-- Nothing is read twice: what follows a stretch is no longer than what followed its first byte. -/
theorem length_front_le (b : UInt8) (rest : List UInt8) :
    (front b rest).2.length ≤ rest.length := by
  unfold front
  grind

/-- The characters of a byte string, with U+FFFD for each ill-formed stretch. -/
def lossyChars : List UInt8 → List Char
  | [] => []
  | b :: rest =>
    let step := front b rest
    step.1.getD '\uFFFD' :: lossyChars step.2
termination_by bytes => bytes.length
decreasing_by
  have := length_front_le b rest
  simp only [List.length_cons]
  omega

/-- The text as messages show it: U+FFFD stands for each ill-formed stretch. -/
def lossy (t : RawText) : String :=
  match t.toString? with
  | some s => s
  | none => String.ofList (lossyChars t.bytes)

/-- The number of bytes at the front that form whole characters. -/
def wholeCharBytes : List UInt8 → Nat
  | [] => 0
  | b :: rest =>
    let step := front b rest
    if step.1.isSome then 1 + (rest.length - step.2.length) + wholeCharBytes step.2 else 0
termination_by bytes => bytes.length
decreasing_by
  have := length_front_le b rest
  simp only [List.length_cons]
  omega

/-- The longest prefix made of whole characters. -/
def wholeChars (bytes : List UInt8) : List UInt8 := bytes.take (wholeCharBytes bytes)

/-- Well-formed text is shown as it is. -/
@[simp] theorem lossy_ofString (s : String) : (ofString s).lossy = s := by simp [lossy]

end RawText
end ArtifactCourier
