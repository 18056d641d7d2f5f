/-!
# Decimal numbers of one machine word

Formula ids and time limits are words of 64 bits.  They are written with the fewest digits, and
read liberally: one plus sign may stand in front, and zeros may lead, but the value must fit.

Reading goes through the natural numbers, where nothing overflows, and compares with the bound
once at the end.
-/

namespace ProcessLogic.Decimal

/-- The decimal digits of a number, without leading zeros. -/
def digits (n : Nat) : List Char := Nat.toDigits 10 n

/-- The number that decimal digits stand for, leading zeros allowed. -/
def value (digits : List Char) : Nat := Nat.ofDigitChars 10 digits 0

/-- A text without the one plus sign that may stand in front of it. -/
def dropPlus : List Char → List Char
  | '+' :: rest => rest
  | text => text

/-- Reads a word: an optional plus sign, then one or more decimal digits below `2 ^ 64`. -/
def word? (text : List Char) : Option UInt64 :=
  let ds := dropPlus text
  if !ds.isEmpty && ds.all Char.isDigit && value ds < UInt64.size then
    some (UInt64.ofNat (value ds))
  else
    none

theorem value_digits (n : Nat) : value (digits n) = n :=
  Nat.ofDigitChars_toDigits (by decide) (by decide)

theorem digits_ne_nil (n : Nat) : digits n ≠ [] := Nat.toDigits_ne_nil

theorem isDigit_of_mem_digits {n : Nat} {c : Char} (h : c ∈ digits n) : c.isDigit = true :=
  Nat.isDigit_of_mem_toDigits (by decide) (by decide) h

/-- A digit is no plus sign, so nothing is dropped from digits. -/
theorem dropPlus_of_all_isDigit {text : List Char} (h : ∀ c ∈ text, c.isDigit = true) :
    dropPlus text = text := by
  unfold dropPlus
  split
  · exact absurd (h '+' (by simp)) (by decide)
  · rfl

/-- What is written for a word is read back. -/
theorem word?_digits (n : UInt64) : word? (digits n.toNat) = some n := by
  have hd : dropPlus (digits n.toNat) = digits n.toNat :=
    dropPlus_of_all_isDigit fun c h => isDigit_of_mem_digits h
  have hne : (digits n.toNat).isEmpty = false := by
    simpa using digits_ne_nil n.toNat
  have hall : (digits n.toNat).all Char.isDigit = true :=
    List.all_eq_true.mpr fun c h => isDigit_of_mem_digits h
  have hlt : n.toNat < UInt64.size := n.toNat_lt
  simp only [word?, hd, hne, hall, value_digits, hlt, Bool.not_false, Bool.true_and, decide_true,
    if_true, UInt64.ofNat_toNat]

end ProcessLogic.Decimal
