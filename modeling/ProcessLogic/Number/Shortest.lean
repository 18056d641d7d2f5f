import ProcessLogic.Number.Binary64

/-!
# The shortest decimal that reads back

A magnitude is written with the fewest decimal digits that only this magnitude can be meant by:
the real numbers that round to it form an interval, and the interval contains a decimal of so
many digits.  Where it contains two, the nearer one is written, and of two equally near ones the
one with the even last digit.

## How it is found

For a number of digits the decimals of that many digits form a grid, and only the two neighbours
of the magnitude on the grid can be the nearest ones.  Both are tried on the grids of one digit,
two digits and so on.  Seventeen digits always suffice.  All comparisons are between natural
numbers: a decimal `d * 10 ^ e` is compared with a quarter of a unit after both sides have been
multiplied by what makes them whole.
-/

namespace ProcessLogic

/-- The decimal `digits * 10 ^ exponent`. -/
structure Scientific where
  digits : Nat
  exponent : Int
deriving DecidableEq, Repr

namespace Binary64

/-- A decimal as a number of quarter units, up to the common factor of `quartersAt`. -/
def decimalAt (e : Int) (digits : Nat) : Nat := digits * Nat.pow 10 e.toNat * (4 * one)

/-- Quarter units with the factor that makes decimals of a negative exponent whole. -/
def quartersAt (e : Int) (quarters : Nat) : Nat := quarters * Nat.pow 10 (-e).toNat

/-- The least real number that may round to a magnitude, in quarter units.  Below a power of two
the magnitudes lie twice as close as above it. -/
def lowerQuarters (units : Nat) : Nat :=
  if units = Nat.pow 2 units.log2 ∧ 52 < units.log2 then
    4 * units - spacing units
  else
    4 * units - 2 * spacing units

/-- The greatest real number that may round to a magnitude, in quarter units. -/
def upperQuarters (units : Nat) : Nat := 4 * units + 2 * spacing units

/-- Whether a decimal rounds to a magnitude.  The two ends of the interval do so if the
significand is even. -/
def readsBack (units : Nat) (e : Int) (digits : Nat) : Bool :=
  let lower := quartersAt e (lowerQuarters units)
  let upper := quartersAt e (upperQuarters units)
  if units / spacing units % 2 = 0 then
    lower ≤ decimalAt e digits && decimalAt e digits ≤ upper
  else
    lower < decimalAt e digits && decimalAt e digits < upper

/-- The exponent of the first decimal digit of a positive magnitude.  Every one of them, times
`10 ^ 324`, is at least one. -/
def firstExponent (units : Nat) : Int :=
  (Nat.toDigits 10 (units * Nat.pow 10 324 / one)).length - 325

/-- The decimal on the grid `10 ^ e` that is written for a magnitude, if one reads back. -/
def onGrid (units : Nat) (e : Int) : Option Scientific :=
  let value := quartersAt e (4 * units)
  let below := value / decimalAt e 1
  let fromBelow := 2 * (value - decimalAt e below)
  match readsBack units e below, readsBack units e (below + 1) with
  | true, true =>
      if fromBelow < decimalAt e 1 || (fromBelow = decimalAt e 1 && below % 2 = 0) then
        some ⟨below, e⟩
      else
        some ⟨below + 1, e⟩
  | true, false => some ⟨below, e⟩
  | false, true => some ⟨below + 1, e⟩
  | false, false => none

/-- The shortest decimal that reads back as a positive magnitude. -/
def shortest (units : Nat) : Scientific :=
  let first := firstExponent units
  ((List.range 17).findSome? fun (more : Nat) => onGrid units (first - more)).getD ⟨0, 0⟩

end Binary64

end ProcessLogic
