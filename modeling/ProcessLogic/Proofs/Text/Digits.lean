import ProcessLogic.Proofs.Text.Trim
import ProcessLogic.Text.Decimal

/-!
# What is read as a number of one word

Ids and time limits are read from texts with blanks around them.  Inside of the blanks there is at
most one plus sign and then there are digits, whose value fits a word; which spellings a number has
is `Decimal.Spelling`, and `Decimal.word?_eq_some_iff` says that just these are read.

The value is compared with the bound once, when all digits have been read.  Whoever has nothing but
words to calculate with compares at every digit, and comes to the same: `Decimal.byDigit?_eq_word?`.
-/

namespace ProcessLogic

namespace Decimal

/-- A number of one word is spelled with digits, perhaps with a plus sign in front of them. -/
inductive Spelling (n : UInt64) : List Char → Prop
  | digits {ds : List Char} (nonempty : ds ≠ []) (digit : ∀ c ∈ ds, c.isDigit = true)
      (same : value ds = n.toNat) : Spelling n ds
  | plus {ds : List Char} (nonempty : ds ≠ []) (digit : ∀ c ∈ ds, c.isDigit = true)
      (same : value ds = n.toNat) : Spelling n ('+' :: ds)

variable {n : UInt64} {text : List Char}

theorem dropPlus_cases (text : List Char) :
    (∃ rest, text = '+' :: rest ∧ dropPlus text = rest) ∨ dropPlus text = text := by
  unfold dropPlus
  split
  · exact .inl ⟨_, rfl, rfl⟩
  · exact .inr rfl

theorem word?_eq_some_iff_dropPlus :
    word? text = some n ↔
      dropPlus text ≠ [] ∧ (∀ c ∈ dropPlus text, c.isDigit = true) ∧
        value (dropPlus text) = n.toNat := by
  simp only [word?, Option.ite_none_right_eq_some, Bool.and_eq_true, Bool.not_eq_true',
    List.isEmpty_eq_false_iff, List.all_eq_true, decide_eq_true_eq, Option.some.injEq]
  constructor
  · rintro ⟨⟨⟨nonempty, digit⟩, fits⟩, rfl⟩
    exact ⟨nonempty, digit, (UInt64.toNat_ofNat_of_lt' fits).symm⟩
  · rintro ⟨nonempty, digit, same⟩
    rw [same]
    exact ⟨⟨⟨nonempty, digit⟩, n.toNat_lt⟩, UInt64.ofNat_toNat⟩

/-- A number is read from its spellings, and from no other text. -/
theorem word?_eq_some_iff : word? text = some n ↔ Spelling n text := by
  rw [word?_eq_some_iff_dropPlus]
  constructor
  · rintro ⟨nonempty, digit, same⟩
    rcases dropPlus_cases text with ⟨rest, rfl, -⟩ | none
    · exact .plus nonempty digit same
    · rw [none] at nonempty digit same
      exact .digits nonempty digit same
  · intro h
    cases h with
    | digits nonempty digit same =>
        rw [dropPlus_of_all_isDigit digit]
        exact ⟨nonempty, digit, same⟩
    | plus nonempty digit same => exact ⟨nonempty, digit, same⟩

/-- What is written for a number is one of its spellings. -/
theorem Spelling.ofDigits (n : UInt64) : Spelling n (Decimal.digits n.toNat) :=
  .digits (digits_ne_nil _) (fun _ hc => isDigit_of_mem_digits hc) (value_digits _)

theorem Spelling.not_isBlank (h : Spelling n text) : ∀ c ∈ text, isBlank c = false := by
  cases h with
  | digits _ digit _ => exact fun c hc => isBlank_of_isDigit (digit c hc)
  | plus _ digit _ =>
      exact List.forall_mem_cons.mpr ⟨rfl, fun c hc => isBlank_of_isDigit (digit c hc)⟩

/-- A text is a spelling of a number, with blanks around it. -/
def Padded (n : UInt64) (text : List Char) : Prop :=
  ∃ front spelling back, text = front ++ (spelling ++ back) ∧ Spelling n spelling ∧
    (∀ c ∈ front, isBlank c = true) ∧ ∀ c ∈ back, isBlank c = true

/-- Blanks around a spelling make no difference, and nothing else may stand there. -/
theorem word?_trim_eq_some_iff : word? (trim text) = some n ↔ Padded n text := by
  rw [word?_eq_some_iff]
  constructor
  · intro h
    obtain ⟨front, back, same, hf, hb⟩ := exists_append_trim text
    exact ⟨front, trim text, back, same, h, hf, hb⟩
  · rintro ⟨front, spelling, back, rfl, h, hf, hb⟩
    rw [← List.append_assoc, trim_append_append hf hb, trim_of_forall_not_blank h.not_isBlank]
    exact h

/-! ### Digit by digit -/

/-- A number with one more digit, unless the character is no digit or the number does not fit. -/
def append? (n : UInt64) (c : Char) : Option UInt64 :=
  let longer := 10 * n.toNat + (c.toNat - '0'.toNat)
  if c.isDigit && longer < UInt64.size then some (.ofNat longer) else none

/-- Reads a word with a comparison at every digit. -/
def byDigit? (text : List Char) : Option UInt64 :=
  if (dropPlus text).isEmpty then none else (dropPlus text).foldlM append? 0

variable {m : UInt64} {c : Char} {ds : List Char}

theorem append?_eq_some_iff :
    append? n c = some m ↔
      c.isDigit = true ∧ 10 * n.toNat + (c.toNat - '0'.toNat) = m.toNat := by
  simp only [append?, Option.ite_none_right_eq_some, Bool.and_eq_true, decide_eq_true_eq,
    Option.some.injEq]
  constructor
  · rintro ⟨⟨digit, fits⟩, rfl⟩
    exact ⟨digit, (UInt64.toNat_ofNat_of_lt' fits).symm⟩
  · rintro ⟨digit, same⟩
    rw [same]
    exact ⟨⟨digit, m.toNat_lt⟩, UInt64.ofNat_toNat⟩

/-- More digits do not make a number smaller, so one that does not fit never will. -/
theorem le_ofDigitChars (ds : List Char) (k : Nat) : k ≤ Nat.ofDigitChars 10 ds k := by
  rw [Nat.ofDigitChars_eq_ofDigitChars_zero]
  calc k ≤ 10 ^ ds.length * k := Nat.le_mul_of_pos_left k (Nat.pow_pos (by decide))
    _ ≤ _ := Nat.le_add_right _ _

theorem foldlM_append?_eq_some_iff :
    ds.foldlM append? n = some m ↔
      (∀ c ∈ ds, c.isDigit = true) ∧ Nat.ofDigitChars 10 ds n.toNat = m.toNat := by
  induction ds generalizing n with
  | nil => simp [UInt64.toNat_inj]
  | cons c ds ih =>
      rw [List.foldlM_cons, Option.bind_eq_bind, Option.bind_eq_some_iff, List.forall_mem_cons,
        Nat.ofDigitChars_cons]
      constructor
      · rintro ⟨longer, first, others⟩
        obtain ⟨digit, same⟩ := append?_eq_some_iff.mp first
        obtain ⟨digits, total⟩ := ih.mp others
        exact ⟨⟨digit, digits⟩, by rw [same, total]⟩
      · rintro ⟨⟨digit, digits⟩, total⟩
        -- the number so far is not above the one that all digits make, which fits
        have fits : 10 * n.toNat + (c.toNat - '0'.toNat) < UInt64.size :=
          Nat.lt_of_le_of_lt (total ▸ le_ofDigitChars ds _) m.toNat_lt
        have same := (UInt64.toNat_ofNat_of_lt' fits).symm
        refine ⟨_, append?_eq_some_iff.mpr ⟨digit, same⟩, ih.mpr ⟨digits, ?_⟩⟩
        rw [← same, total]

/-- Comparing at every digit and comparing once make no difference. -/
theorem byDigit?_eq_word? (text : List Char) : byDigit? text = word? text := by
  refine Option.ext fun n => ?_
  rw [word?_eq_some_iff_dropPlus, byDigit?, value]
  cases dropPlus text with
  | nil => simp
  | cons c ds =>
      rw [List.isEmpty_cons, if_neg Bool.false_ne_true, foldlM_append?_eq_some_iff]
      exact ⟨fun h => ⟨List.cons_ne_nil c ds, h⟩, And.right⟩

end Decimal

end ProcessLogic
