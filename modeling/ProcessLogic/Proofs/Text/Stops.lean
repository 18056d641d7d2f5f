import Mathlib.Data.List.TakeWhile

/-!
# Where a run of characters stops

Scanners take the longest run of characters of some class off the front of a text.  They find a run
again, whatever it is followed by, if that does not go on with the run.
-/

namespace ProcessLogic

/-- No character of a class stands at the front of a text. -/
def Stops (p : Char → Bool) (rest : List Char) : Prop := ∀ c ∈ rest.head?, p c = false

namespace Stops

variable {p q : Char → Bool} {rest : List Char}

theorem nil : Stops p [] := by simp [Stops]

theorem cons {c : Char} (h : p c = false) (tail : List Char) : Stops p (c :: tail) := by
  simpa [Stops] using h

theorem mono (h : Stops q rest) (sub : ∀ c, p c = true → q c = true) : Stops p rest := by
  intro c hc
  refine Bool.eq_false_iff.mpr fun hp => ?_
  exact Bool.eq_false_iff.mp (h c hc) (sub c hp)

theorem takeWhile_append {front : List Char} (hf : ∀ c ∈ front, p c = true) (h : Stops p rest) :
    (front ++ rest).takeWhile p = front := by
  rw [List.takeWhile_append_of_pos hf]
  cases rest with
  | nil => simp
  | cons c tail => rw [List.takeWhile_cons_of_neg (by simp [h c rfl]), List.append_nil]

theorem dropWhile_append {front : List Char} (hf : ∀ c ∈ front, p c = true) (h : Stops p rest) :
    (front ++ rest).dropWhile p = rest := by
  rw [List.dropWhile_append_of_pos hf]
  cases rest with
  | nil => rfl
  | cons c tail => rw [List.dropWhile_cons_of_neg (by simp [h c rfl])]

theorem dropWhile_eq (h : Stops p rest) : rest.dropWhile p = rest :=
  h.dropWhile_append (List.forall_mem_nil _)

/-- What is left when a run has been taken off does not go on with it. -/
theorem dropWhile (p : Char → Bool) (text : List Char) : Stops p (text.dropWhile p) := by
  intro c hc
  have stopped := List.head?_dropWhile_not p text
  rwa [hc] at stopped

end Stops

end ProcessLogic
