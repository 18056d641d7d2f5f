import ProcessLogic.Proofs.Formula.Scan
import ProcessLogic.Proofs.Text.Digits

/-!
# What is a selection

A selection is the leaf marker or a number of one word, with blanks around it.  The two have no
text in common, since the marker has a minus sign and a number has none; so a text says one thing at
most, and what is refused says nothing.
-/

namespace ProcessLogic.Target

variable {raw : String} {n : UInt64} {error : FormulaError}

/-- No number is spelled like the leaf marker. -/
theorem not_spelling_leafMarker (n : UInt64) : ¬Decimal.Spelling n leafMarker.toList := by
  intro h
  cases h with
  | digits _ digit _ => exact absurd (digit '-' (by decide)) (by decide)

theorem ofSelection_eq_leaf_iff :
    ofSelection raw = .ok .leaf ↔ trim raw.toList = leafMarker.toList := by
  rw [ofSelection]
  split
  case isTrue marker => exact ⟨fun _ => marker, fun _ => rfl⟩
  case isFalse noMarker => split <;> simp [noMarker]

theorem ofSelection_eq_node_iff :
    ofSelection raw = .ok (.node ⟨n⟩) ↔ Decimal.Spelling n (trim raw.toList) := by
  rw [ofSelection, ← Decimal.word?_eq_some_iff]
  split
  case isTrue marker =>
    rw [marker, Decimal.word?_eq_some_iff]
    constructor
    · intro read
      cases read
    · intro spelled
      exact absurd spelled (not_spelling_leafMarker n)
  case isFalse => split <;> simp [*]

/-- A selection is refused for its text alone. -/
theorem ofSelection_eq_error_iff :
    ofSelection raw = .error error ↔
      error = .malformedSelection raw ∧ ∀ target, ofSelection raw ≠ .ok target := by
  rw [ofSelection]
  split
  · simp
  · split
    · simp
    · simp [eq_comm]

/-- What is written for a target is read back, with any blanks around it. -/
theorem ofSelection_padded (t : Target) {front back : String}
    (hf : ∀ c ∈ front.toList, isBlank c = true) (hb : ∀ c ∈ back.toList, isBlank c = true) :
    ofSelection (front ++ t.text ++ back) = .ok t := by
  have same : trim (front ++ t.text ++ back).toList = trim t.text.toList := by
    rw [String.toList_append, String.toList_append, trim_append_append hf hb]
  have alone := ofSelection_text t
  cases t with
  | leaf =>
      rw [ofSelection_eq_leaf_iff] at alone ⊢
      rw [same, alone]
  | node id =>
      rw [ofSelection_eq_node_iff] at alone ⊢
      rwa [same]

theorem text_injective : Function.Injective text := by
  intro t t' same
  have read := ofSelection_text t
  rw [same, ofSelection_text t'] at read
  exact (Except.ok.inj read).symm

/-- **What is a selection.**  Without the blanks around it a text is one text.  If this is the leaf
marker, then a leaf is selected; if it is a number of one word, spelled with digits and perhaps one
plus sign, then the node of this id; and if it is neither, the text is refused as it came in.  It
makes no difference whether the number is compared with the bound at every digit or once.

What is written for a target is a selection of this target, whatever blanks are around it, and
different targets are written differently. -/
theorem selection_exact (raw : String) :
    (∃! inner, Trimmed raw.toList inner) ∧
    (∀ inner, Trimmed raw.toList inner →
      (ofSelection raw = .ok .leaf ↔ inner = "-1".toList) ∧
      (∀ n, ofSelection raw = .ok (.node ⟨n⟩) ↔ Decimal.Spelling n inner) ∧
      (∀ error, ofSelection raw = .error error ↔
        error = .malformedSelection raw ∧ inner ≠ "-1".toList ∧
          ∀ n, ¬Decimal.Spelling n inner) ∧
      Decimal.byDigit? inner = Decimal.word? inner) ∧
    (∀ (t : Target) (front back : String), (∀ c ∈ front.toList, isBlank c = true) →
      (∀ c ∈ back.toList, isBlank c = true) → ofSelection (front ++ t.text ++ back) = .ok t) ∧
    Function.Injective text := by
  refine ⟨⟨trim raw.toList, trimmed_iff.mpr rfl, fun _ h => (trimmed_iff.mp h).symm⟩,
    fun inner h => ?_, fun t _ _ hf hb => ofSelection_padded t hf hb, text_injective⟩
  obtain rfl := trimmed_iff.mp h
  refine ⟨ofSelection_eq_leaf_iff, fun _ => ofSelection_eq_node_iff, fun error => ?_,
    Decimal.byDigit?_eq_word? _⟩
  rw [ofSelection_eq_error_iff, and_congr_right_iff]
  rintro rfl
  constructor
  · intro refused
    exact ⟨fun marker => refused .leaf (ofSelection_eq_leaf_iff.mpr marker),
      fun n spelled => refused (.node ⟨n⟩) (ofSelection_eq_node_iff.mpr spelled)⟩
  · rintro ⟨noMarker, noNumber⟩ target
    cases target with
    | leaf => exact fun read => noMarker (ofSelection_eq_leaf_iff.mp read)
    | node id => exact fun read => noNumber id.value (ofSelection_eq_node_iff.mp read)

/-- The largest id with zeros in front of it and blanks around it, the first number that does not
fit, and a sign too many. -/
theorem selection_exact_limits :
    ofSelection "\u2003+0018446744073709551615\t" = .ok (.node ⟨18446744073709551615⟩) ∧
      ofSelection " 18446744073709551616" =
        .error (.malformedSelection " 18446744073709551616") ∧
      ofSelection "++1" = .error (.malformedSelection "++1") ∧
      ofSelection ("\n" ++ leaf.text ++ " ") = .ok .leaf := by
  have trimmed {raw : String} : Trimmed raw.toList (trim raw.toList) := trimmed_iff.mpr rfl
  have none {text : List Char} (h : Decimal.word? text = none) (n : UInt64) :
      ¬Decimal.Spelling n text := by
    rw [← Decimal.word?_eq_some_iff, h]
    exact Option.some_ne_none n ∘ Eq.symm
  refine ⟨?_, ?_, ?_, ?_⟩
  · exact (((selection_exact _).2.1 _ trimmed).2.1 _).mpr
      (.plus (by decide) (List.all_eq_true.mp rfl) (by decide))
  · exact (((selection_exact _).2.1 _ trimmed).2.2.1 _).mpr ⟨rfl, by decide, none (by decide)⟩
  · exact (((selection_exact _).2.1 _ trimmed).2.2.1 _).mpr ⟨rfl, by decide, none (by decide)⟩
  · exact (selection_exact "").2.2.1 .leaf "\n" " " (List.all_eq_true.mp rfl)
      (List.all_eq_true.mp rfl)

end ProcessLogic.Target
