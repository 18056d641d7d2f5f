/-!
# Numerals

The spelling of a JSON number: an optional minus sign, digits without a leading zero, then
perhaps a point with digits, and perhaps an exponent.  A numeral keeps all of it, so that its text
is what was read.
-/

namespace ProcessLogic

/-- The exponent of a numeral: `e` or `E`, perhaps a sign, and digits. -/
structure Exponent where
  marker : Char
  sign : Option Char
  digits : List Char
deriving DecidableEq, Repr

structure Numeral where
  negative : Bool
  whole : List Char
  /-- The digits behind the point; none if there is no point. -/
  fraction : List Char
  exponent : Option Exponent
deriving DecidableEq, Repr

namespace Exponent

def text (e : Exponent) : List Char := e.marker :: (e.sign.toList ++ e.digits)

def isMarker (c : Char) : Bool := c == 'e' || c == 'E'

def isSign (c : Char) : Bool := c == '+' || c == '-'

end Exponent

namespace Numeral

def text (n : Numeral) : List Char :=
  (if n.negative then ['-'] else []) ++ n.whole
    ++ (if n.fraction.isEmpty then [] else '.' :: n.fraction)
    ++ (match n.exponent with | none => [] | some e => e.text)

/-- Reads one or more digits. -/
def scanDigits (text : List Char) : Option (List Char × List Char) :=
  match text.takeWhile Char.isDigit with
  | [] => none
  | digits => some (digits, text.dropWhile Char.isDigit)

/-- Reads an optional minus sign. -/
def scanMinus : List Char → Bool × List Char
  | '-' :: rest => (true, rest)
  | text => (false, text)

/-- Reads the digits in front of the point: a zero alone, or digits that start with no zero. -/
def scanWhole : List Char → Option (List Char × List Char)
  | '0' :: rest => some (['0'], rest)
  | text => scanDigits text

/-- Reads a point and its digits, if there is a point. -/
def scanFraction : List Char → Option (List Char × List Char)
  | '.' :: rest => scanDigits rest
  | text => some ([], text)

/-- Reads an optional sign of an exponent. -/
def scanSign : List Char → Option Char × List Char
  | c :: rest => if Exponent.isSign c then (some c, rest) else (none, c :: rest)
  | [] => (none, [])

/-- Reads an exponent, if its marker is there. -/
def scanExponent : List Char → Option (Option Exponent × List Char)
  | [] => some (none, [])
  | c :: rest =>
      if Exponent.isMarker c then
        (scanDigits (scanSign rest).2).map fun (digits, rest') =>
          (some ⟨c, (scanSign rest).1, digits⟩, rest')
      else
        some (none, c :: rest)

/-- Reads a numeral; the second component is what follows it. -/
def scan (text : List Char) : Option (Numeral × List Char) := do
  let (whole, rest) ← scanWhole (scanMinus text).2
  let (fraction, rest) ← scanFraction rest
  let (exponent, rest) ← scanExponent rest
  return (⟨(scanMinus text).1, whole, fraction, exponent⟩, rest)

end Numeral

end ProcessLogic
