/-!
# Binary floating point in exact arithmetic

The finite numbers of the 64-bit binary format are multiples of its smallest positive number,
`2 ^ -1074`.  A magnitude is therefore kept as a natural number of such *units*, and every
operation is exact arithmetic on naturals followed by one rounding.  Below `2 ^ 53` units every
natural number is a magnitude; above, only the multiples of a power of two are.
-/

namespace ProcessLogic

/-- A finite number of the format: a sign, and a magnitude in units of `2 ^ -1074`. -/
structure Binary64 where
  negative : Bool
  units : Nat
deriving DecidableEq, Repr

namespace Binary64

/-- The number one, in units. -/
def one : Nat := Nat.pow 2 1074

/-- The least power of two that is too large for the format, in units. -/
def limit : Nat := Nat.pow 2 2098

/-- A quotient rounded to the nearest natural number, a half to the even neighbour. -/
def roundDiv (num den : Nat) : Nat :=
  if 2 * (num % den) < den then num / den
  else if den < 2 * (num % den) then num / den + 1
  else num / den + num / den % 2

/-- The distance between the magnitudes around a number of units: 53 binary digits fit. -/
def spacing (units : Nat) : Nat := Nat.pow 2 (units.log2 - 52)

/-- The magnitude nearest to a quotient of units. -/
def round (num den : Nat) : Nat :=
  roundDiv num (den * spacing (num / den)) * spacing (num / den)

/-- The magnitude nearest to a natural number. -/
def ofNat (n : Nat) : Nat := round (n * one) 1

def mul (a b : Nat) : Nat := round (a * b) one

def div (a b : Nat) : Nat := round (a * one) b

end Binary64

end ProcessLogic
