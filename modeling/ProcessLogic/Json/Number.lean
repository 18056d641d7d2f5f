import ProcessLogic.Json.Numeral
import ProcessLogic.Number.Shortest
import ProcessLogic.Text.Decimal

/-!
# Numbers of JSON

A numeral without point and exponent is an integer, as long as it fits a signed or an unsigned
word of 64 bits.  All others, and minus zero, are binary floating point numbers; a numeral too
large for those stands for no number.

## How a numeral becomes a floating point number

Digits are collected into one word for as long as they fit; digits of the whole part that do not
fit count as zeros, and such digits of the fraction are dropped.  The word is then converted, and
multiplied or divided once by a power of ten.  This rounds up to three times, and the last digit
may be off.  Divisions by more than `10 ^ 308` go through that power, as often as it takes.
-/

namespace ProcessLogic

inductive Number where
  | integer (value : Int)
  | binary (value : Binary64)
deriving DecidableEq, Repr

namespace Numeral

/-- The value of a digit. -/
def digitValue (c : Char) : Nat := c.toNat - '0'.toNat

/-- Appends digits to a number while the result fits a word.  The second component says how many
digits did not fit. -/
def collect (start : Nat) : List Char → Nat × Nat
  | [] => (start, 0)
  | c :: rest =>
      if start * 10 + digitValue c < UInt64.size then
        collect (start * 10 + digitValue c) rest
      else
        (start, rest.length + 1)

/-- The exponent that is written, zero if none is. -/
def writtenExponent (n : Numeral) : Int :=
  match n.exponent with
  | none => 0
  | some e => if e.sign = some '-' then -(Decimal.value e.digits : Int) else Decimal.value e.digits

/-- The digits of a numeral as one word, and the power of ten it is to be scaled by. -/
def significand (n : Numeral) : Nat × Int :=
  let (whole, unread) := collect 0 n.whole
  let (all, dropped) := collect whole n.fraction
  (all, n.writtenExponent + unread - (n.fraction.length - dropped : Nat))

/-- The power of ten of greatest exponent in the format. -/
def maxPower : Nat := 308

/-- Divides a magnitude by a power of ten. -/
def scaleDown (units places : Nat) : Nat :=
  if places ≤ maxPower then
    Binary64.div units (Binary64.ofNat (Nat.pow 10 places))
  else if units = 0 then
    0
  else
    scaleDown (Binary64.div units (Binary64.ofNat (Nat.pow 10 maxPower))) (places - maxPower)
termination_by places
decreasing_by simp only [maxPower] at *; omega

/-- Multiplies a magnitude by a power of ten, if the product fits the format. -/
def scaleUp? (units places : Nat) : Option Nat :=
  if places ≤ maxPower then
    let product := Binary64.mul units (Binary64.ofNat (Nat.pow 10 places))
    if product < Binary64.limit then some product else none
  else if units = 0 then
    some 0
  else
    none

/-- The floating point number a numeral stands for. -/
def binary? (n : Numeral) : Option Binary64 :=
  let (word, exponent) := n.significand
  match exponent with
  | .ofNat places => (scaleUp? (Binary64.ofNat word) places).map (⟨n.negative, ·⟩)
  | .negSucc places => some ⟨n.negative, scaleDown (Binary64.ofNat word) (places + 1)⟩

/-- The integer a numeral stands for, if it is spelled as one and fits a word. -/
def integer? (n : Numeral) : Option Int :=
  if n.fraction.isEmpty && n.exponent.isNone then
    let value := Decimal.value n.whole
    if n.negative then
      if 0 < value && value ≤ UInt64.size / 2 then some (-value) else none
    else
      if value < UInt64.size then some value else none
  else
    none

/-- The number a numeral stands for. -/
def number? (n : Numeral) : Option Number :=
  match n.integer? with
  | some value => some (.integer value)
  | none => n.binary?.map .binary

end Numeral

namespace Number

/-- Digits without the zeros at their end, and how many those are. -/
def dropZeros (digits : List Char) : List Char × Nat :=
  let zeros := digits.reverse.takeWhile (· == '0')
  (digits.take (digits.length - zeros.length), zeros.length)

/-- A positive decimal as text.  From `1e-5` on and below `1e16` it is positional, and then it
has at least one digit on either side of the point; otherwise it has an exponent, and a point only
if more than one digit is left. -/
def scientificText (s : Scientific) : String :=
  let (digits, zeros) := dropZeros (Decimal.digits s.digits)
  let exponent := s.exponent + zeros
  let point : Int := digits.length + exponent
  if 0 ≤ exponent && point ≤ 16 then
    .ofList (digits ++ List.replicate exponent.toNat '0') ++ ".0"
  else if 0 < point && point ≤ 16 then
    .ofList (digits.take point.toNat) ++ "." ++ .ofList (digits.drop point.toNat)
  else if -5 < point && point ≤ 0 then
    "0." ++ .ofList (List.replicate (-point).toNat '0' ++ digits)
  else
    let power := point - 1
    let sign := if power < 0 then "-" else "+"
    .ofList (digits.take 1) ++ (if digits.length = 1 then "" else ".") ++ .ofList (digits.drop 1)
      ++ "e" ++ sign ++ .ofList (Decimal.digits power.natAbs)

/-- A number as text: integers by their digits, others by the shortest decimal that reads back. -/
def text : Number → String
  | .integer (.ofNat n) => .ofList (Decimal.digits n)
  | .integer (.negSucc n) => "-" ++ .ofList (Decimal.digits (n + 1))
  | .binary x =>
      (if x.negative then "-" else "") ++
        (if x.units = 0 then "0.0" else scientificText (Binary64.shortest x.units))

end Number

end ProcessLogic
