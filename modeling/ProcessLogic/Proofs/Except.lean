/-!
# Computations that can fail

If a computation in several parts succeeds, then each of its parts does.
-/

namespace ProcessLogic

variable {ε α β : Type} {x : Except ε α} {b : β}

theorem exists_of_bind_eq_ok {next : α → Except ε β} (h : (x >>= next) = .ok b) :
    ∃ a, x = .ok a ∧ next a = .ok b := by
  cases x with
  | error e => cases h
  | ok a => exact ⟨a, rfl, h⟩

theorem exists_of_map_eq_ok {f : α → β} (h : x.map f = .ok b) : ∃ a, x = .ok a ∧ f a = b := by
  cases x with
  | error e => cases h
  | ok a => exact ⟨a, rfl, Except.ok.inj h⟩

theorem foldlM_single (f : β → α → Except ε β) (b : β) (a : α) : [a].foldlM f b = f b a := by
  rw [List.foldlM_cons]
  exact bind_pure _

end ProcessLogic
