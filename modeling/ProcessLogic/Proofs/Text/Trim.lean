import ProcessLogic.Proofs.Text.Stops
import ProcessLogic.Text.Blank
import Mathlib.Data.List.DropRight

/-!
# What trimming takes off

Trimming takes the blanks off both ends of a text and nothing else, so blanks around a text make no
difference, and a text without blanks stays as it is.  `Trimmed` says what is left of a text, and
`trimmed_iff` that there is just one such thing.
-/

namespace ProcessLogic

theorem isBlank_of_isDigit {c : Char} (h : c.isDigit = true) : isBlank c = false := by
  obtain ⟨low, high⟩ := Char.isDigit_iff_toNat.mp h
  have low : 48 ≤ c.toNat := low
  have high : c.toNat ≤ 57 := high
  simp only [isBlank, blankRanges, CodeRanges.covers, List.any_cons, List.any_nil, Bool.or_false,
    Bool.or_eq_false_iff, Bool.and_eq_false_iff, decide_eq_false_iff_not]
  omega

/-- Nothing is cut off a text without blanks. -/
theorem trim_of_forall_not_blank {text : List Char} (h : ∀ c ∈ text, isBlank c = false) :
    trim text = text := by
  have keep : ∀ t : List Char, (∀ c ∈ t, isBlank c = false) → t.dropWhile isBlank = t :=
    fun t ht => List.dropWhile_eq_self_iff.mpr fun hl => by simp [ht _ (List.getElem_mem hl)]
  rw [trim, keep text h, keep text.reverse fun c hc => h c (List.mem_reverse.mp hc),
    List.reverse_reverse]

/-- Nothing is left of blanks alone. -/
theorem trim_of_forall_blank {text : List Char} (h : ∀ c ∈ text, isBlank c = true) :
    trim text = [] := by
  rw [trim, List.dropWhile_eq_nil_iff.mpr h]
  rfl

theorem trim_eq_rdropWhile (text : List Char) :
    trim text = (text.dropWhile isBlank).rdropWhile isBlank := rfl

/-- Blanks around a text make no difference. -/
theorem trim_append_append {front back : List Char} (hf : ∀ c ∈ front, isBlank c = true)
    (hb : ∀ c ∈ back, isBlank c = true) (text : List Char) :
    trim (front ++ text ++ back) = trim text := by
  have behind : ∀ t : List Char, (t ++ back).rdropWhile isBlank = t.rdropWhile isBlank := by
    intro t
    rw [List.rdropWhile, List.reverse_append,
      List.dropWhile_append_of_pos fun c hc => hb c (List.mem_reverse.mp hc)]
    rfl
  rw [trim_eq_rdropWhile, trim_eq_rdropWhile, List.append_assoc, List.dropWhile_append_of_pos hf,
    List.dropWhile_append]
  split
  · rename_i blank
    have none : text.dropWhile isBlank = [] := List.isEmpty_iff.mp blank
    have all : back.dropWhile isBlank = [] := List.dropWhile_eq_nil_iff.mpr hb
    rw [none, all]
  · exact behind _

/-- Nothing but blanks is cut off a text. -/
theorem exists_append_trim (text : List Char) :
    ∃ front back, text = front ++ (trim text ++ back) ∧ (∀ c ∈ front, isBlank c = true) ∧
      ∀ c ∈ back, isBlank c = true := by
  refine ⟨text.takeWhile isBlank, (text.dropWhile isBlank).rtakeWhile isBlank, ?_,
    fun c hc => List.mem_takeWhile_imp hc, fun c hc => List.mem_rtakeWhile_imp hc⟩
  rw [trim_eq_rdropWhile, List.rdropWhile_append_rtakeWhile, List.takeWhile_append_dropWhile]

/-! ### What is left -/

/-- A text has blanks around some inner text, which neither begins nor ends with one. -/
structure Trimmed (text inner : List Char) : Prop where
  around : ∃ front back, text = front ++ (inner ++ back) ∧ (∀ c ∈ front, isBlank c = true) ∧
    ∀ c ∈ back, isBlank c = true
  starts : Stops isBlank inner
  ends : Stops isBlank inner.reverse

theorem stops_trim (text : List Char) : Stops isBlank (trim text) := by
  obtain ⟨more, same⟩ := List.rdropWhile_prefix isBlank (text.dropWhile isBlank)
  intro c hc
  have start : Stops isBlank (trim text ++ more) := by
    rw [trim_eq_rdropWhile, same]
    exact .dropWhile isBlank text
  exact start c (List.mem_head?_append_of_mem_head? hc)

theorem stops_reverse_trim (text : List Char) : Stops isBlank (trim text).reverse := by
  rw [trim, List.reverse_reverse]
  exact .dropWhile isBlank _

variable {text inner : List Char}

theorem trim_eq_self (starts : Stops isBlank inner) (ends : Stops isBlank inner.reverse) :
    trim inner = inner := by
  rw [trim, starts.dropWhile_eq, ends.dropWhile_eq, List.reverse_reverse]

/-- What is left of a text is what trimming leaves. -/
theorem trimmed_iff : Trimmed text inner ↔ trim text = inner := by
  constructor
  · rintro ⟨⟨front, back, rfl, hf, hb⟩, starts, ends⟩
    rw [← List.append_assoc, trim_append_append hf hb, trim_eq_self starts ends]
  · rintro rfl
    exact ⟨exists_append_trim text, stops_trim text, stops_reverse_trim text⟩

end ProcessLogic
