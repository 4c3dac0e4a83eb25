/-
  ArtifactCourier.Yaml.Resolution
  ──────────────────────────────────────
  **What a plain scalar is taken for.**

  Without quotes a scalar may be read as something other than a text: nothing, a truth
  value or a number.  Text that would be must be quoted when it is written.

  Numbers are binary, octal, decimal or hexadecimal integers of up to 128 bits, and
  decimal fractions within the range of double precision.  Digits behind a leading zero
  are no number, but are quoted as well.
-/

namespace ArtifactCourier.Yaml.Resolution

/-! ## §1. Nothing, and truth values. -/

/-- The spellings of nothing. -/
def isNullWord (cs : List Char) : Bool :=
  cs ∈ ["null".toList, "Null".toList, "NULL".toList, ['~']]

/-- Whether a plain scalar is taken for nothing: a spelling of it, or no text at all. -/
def isNull (cs : List Char) : Bool := cs.isEmpty || isNullWord cs

def isBool (cs : List Char) : Bool :=
  cs ∈ ["true".toList, "True".toList, "TRUE".toList, "false".toList, "False".toList,
    "FALSE".toList]

/-! ## §2. Integers. -/

/-- The value of a digit in any base up to sixteen. -/
def digitValue? (c : Char) : Option Nat :=
  if '0' ≤ c ∧ c ≤ '9' then some (c.toNat - '0'.toNat)
  else if 'a' ≤ c ∧ c ≤ 'f' then some (c.toNat - 'a'.toNat + 10)
  else if 'A' ≤ c ∧ c ≤ 'F' then some (c.toNat - 'A'.toNat + 10)
  else none

/-- The number that one or more digits write in a base. -/
def number? (base : Nat) (cs : List Char) : Option Nat :=
  if cs.isEmpty then none
  else cs.foldlM
    (fun n c => (digitValue? c).bind fun d => if d < base then some (n * base + d) else none) 0

/-- The base that a text announces, and the digits behind the announcement. -/
def announcedBase? : List Char → Option (Nat × List Char)
  | '0' :: 'x' :: digits => some (16, digits)
  | '0' :: 'o' :: digits => some (8, digits)
  | '0' :: 'b' :: digits => some (2, digits)
  | _ => none

def unsigned (cs : List Char) : List Char :=
  match cs with
  | '-' :: rest => rest
  | '+' :: rest => rest
  | _ => cs

/-- More digits behind a leading zero, perhaps with a sign. -/
def isZeroLed (cs : List Char) : Bool :=
  match unsigned cs with
  | '0' :: d :: rest => (d :: rest).all Char.isDigit
  | _ => false

/-- Whether digits in the announced base write a number within the limit. -/
def isAnnouncedWithin (limit : Nat) (cs : List Char) : Bool :=
  match announcedBase? cs with
  | some (base, digits) => (number? base digits).any (· ≤ limit)
  | none => false

/-- Whether decimal digits write a number within the limit. -/
def isDecimalWithin (limit : Nat) (cs : List Char) : Bool := (number? 10 cs).any (· ≤ limit)

/-- Whether a text is an integer of at most 128 bits, below zero in two's complement. -/
def isInteger (cs : List Char) : Bool :=
  match cs with
  | '-' :: magnitude =>
    isAnnouncedWithin (Nat.pow 2 127) magnitude
      || (!isZeroLed cs && isDecimalWithin (Nat.pow 2 127) magnitude)
  | _ =>
    let magnitude := match cs with | '+' :: rest => rest | _ => cs
    isAnnouncedWithin (Nat.pow 2 128 - 1) magnitude
      || (!isZeroLed cs && isDecimalWithin (Nat.pow 2 128 - 1) magnitude)

/-! ## §3. Fractions. -/

/-- The least number that is too large for double precision: from half a step above the
largest double on, numbers are rounded to infinity. -/
def overflowBound : Nat := Nat.pow 2 1024 - Nat.pow 2 970

/-- Whether `m · 10 ^ e` is a finite number of double precision.  Far from the bound the
number of digits decides, so that no large power is ever computed. -/
def isFinite (m : Nat) (e : Int) : Bool :=
  let digits := (Nat.toDigits 10 m).length
  if m = 0 then true
  else if (digits : Int) + e ≤ 300 then true
  else if 320 < (digits : Int) + e then false
  else if 0 ≤ e then m * Nat.pow 10 e.toNat < overflowBound
  else m < overflowBound * Nat.pow 10 (-e).toNat

/-- The exponent of a decimal number: absent, or a letter, perhaps a sign, and digits. -/
def exponent? (cs : List Char) : Option Int :=
  match cs with
  | [] => some 0
  | c :: rest =>
    if c = 'e' ∨ c = 'E' then
      match rest with
      | '-' :: digits => (number? 10 digits).map fun n => -(n : Int)
      | '+' :: digits => (number? 10 digits).map fun n => (n : Int)
      | _ => (number? 10 rest).map fun n => (n : Int)
    else none

/-- Whether a text without a sign is a finite decimal number: digits with at most one point
among them, and perhaps an exponent. -/
def isDecimalFraction (cs : List Char) : Bool :=
  let whole := cs.takeWhile Char.isDigit
  let rest := cs.dropWhile Char.isDigit
  let (fraction, rest) :=
    match rest with
    | '.' :: after => (after.takeWhile Char.isDigit, after.dropWhile Char.isDigit)
    | _ => ([], rest)
  match number? 10 (whole ++ fraction), exponent? rest with
  | some m, some e => isFinite m (e - fraction.length)
  | _, _ => false

/-- The spellings of infinity, without a sign. -/
def isInfinityWord (cs : List Char) : Bool :=
  cs ∈ [".inf".toList, ".Inf".toList, ".INF".toList]

def isNanWord (cs : List Char) : Bool :=
  cs ∈ [".nan".toList, ".NaN".toList, ".NAN".toList]

def isFloat (cs : List Char) : Bool :=
  isNanWord cs ||
    match cs with
    | '+' :: rest => isInfinityWord rest || isDecimalFraction rest
    | '-' :: rest => isInfinityWord rest || isDecimalFraction rest
    | _ => isInfinityWord cs || isDecimalFraction cs

/-! ## §4. Text. -/

/-- **Whether a text must be quoted** lest it be taken for something else. -/
def needsQuotes (cs : List Char) : Bool :=
  isNull cs || isBool cs || isInteger cs || isZeroLed cs || isFloat cs

end ArtifactCourier.Yaml.Resolution
