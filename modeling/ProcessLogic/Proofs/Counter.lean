import Mathlib.Data.List.Nodup

/-!
# Counting in words

A counter of 64 bits that starts at zero holds, after it has counted `n` times, the word of `n`.  It
may have gone round by then.  As long as it has not, the words it has held are all different, and it
tells how often it has counted.
-/

namespace ProcessLogic

theorem word_succ (n : Nat) : UInt64.ofNat (n + 1) = UInt64.ofNat n + 1 := by
  rw [UInt64.ofNat_add]
  rfl

/-- Numbers that fit into a word are told apart by their words. -/
theorem word_injOn {m n : Nat} (hm : m < UInt64.size) (hn : n < UInt64.size)
    (same : UInt64.ofNat m = UInt64.ofNat n) : m = n := by
  have value := congrArg UInt64.toNat same
  rwa [UInt64.toNat_ofNat_of_lt' hm, UInt64.toNat_ofNat_of_lt' hn] at value

/-- A counter that has counted as often as there are words has held each of them once. -/
theorem nodup_words {n : Nat} (few : n ≤ UInt64.size) :
    ((List.range n).map UInt64.ofNat).Nodup :=
  List.Nodup.map_on
    (fun _ hk _ hl => word_injOn (Nat.lt_of_lt_of_le (List.mem_range.mp hk) few)
      (Nat.lt_of_lt_of_le (List.mem_range.mp hl) few))
    List.nodup_range

/-- What a counter holds is what it held before just if it has not counted since. -/
theorem add_word_eq_self_iff {a : UInt64} {n : Nat} (few : n < UInt64.size) :
    a + UInt64.ofNat n = a ↔ n = 0 := by
  constructor
  · intro same
    have zero : UInt64.ofNat n = UInt64.ofNat 0 := by simpa using same
    exact word_injOn few (Nat.zero_lt_of_lt few) zero
  · rintro rfl
    simp

end ProcessLogic
