/-!
# Cutting a list at its separators

Three readers of this library cut their input at single separators: words are cut at blanks,
attribute values at quotation marks, and the output of an engine at newlines.  They share the
function `pieces`, and through it two facts: a separator-free stretch followed by a separator
is the first piece (`pieces_append_cons`), and a list without separators is its own only piece
(`pieces_eq_singleton`).
-/

namespace ProcessLogic

variable {α : Type}

/-- The separator-free stretches of a list, in order: always one more than it has separators. -/
def pieces (sep : α → Bool) : List α → List (List α)
  | [] => [[]]
  | a :: rest =>
      if sep a then [] :: pieces sep rest else (pieces sep rest).modifyHead (a :: ·)

@[simp] theorem pieces_nil (sep : α → Bool) : pieces sep [] = [[]] := rfl

theorem pieces_cons_of_sep {sep : α → Bool} {a : α} (h : sep a = true) (rest : List α) :
    pieces sep (a :: rest) = [] :: pieces sep rest := by
  simp [pieces, h]

theorem pieces_cons_of_not_sep {sep : α → Bool} {a : α} (h : sep a = false) (rest : List α) :
    pieces sep (a :: rest) = (pieces sep rest).modifyHead (a :: ·) := by
  simp [pieces, h]

/-- A separator-free stretch up to a separator is the first piece. -/
theorem pieces_append_cons {sep : α → Bool} {a : α} (ha : sep a = true) (rest : List α)
    {front : List α} (h : ∀ x ∈ front, sep x = false) :
    pieces sep (front ++ a :: rest) = front :: pieces sep rest := by
  induction front with
  | nil => exact pieces_cons_of_sep ha rest
  | cons x front ih =>
      rw [List.cons_append, pieces_cons_of_not_sep (h x (by simp)),
        ih fun y hy => h y (by simp [hy])]
      rfl

/-- A list without separators is its own only piece. -/
theorem pieces_eq_singleton {sep : α → Bool} {front : List α}
    (h : ∀ x ∈ front, sep x = false) : pieces sep front = [front] := by
  induction front with
  | nil => rfl
  | cons x front ih =>
      rw [pieces_cons_of_not_sep (h x (by simp)), ih fun y hy => h y (by simp [hy])]
      rfl

end ProcessLogic
