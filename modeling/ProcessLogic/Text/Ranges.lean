/-!
# Classes of characters

A class of characters that Unicode defines by a table is kept as ranges of code points, each by
its first and its last member.  A table comes with the proof that its ranges ascend and that no
two of them touch, so none is empty and none is given twice.
-/

namespace ProcessLogic

/-- Whether ranges ascend without touching each other. -/
def areAscending : List (Nat × Nat) → Bool
  | [] => true
  | [range] => range.1 ≤ range.2
  | range :: next :: rest =>
      range.1 ≤ range.2 && range.2 + 1 < next.1 && areAscending (next :: rest)

/-- A class of characters by the ranges of their code points. -/
structure CodeRanges where
  /-- The first and the last member of each range. -/
  ranges : List (Nat × Nat)
  ascending : areAscending ranges = true

namespace CodeRanges

/-- Whether the code point of a character lies in one of the ranges. -/
def covers (table : CodeRanges) (c : Char) : Bool :=
  table.ranges.any fun range => range.1 ≤ c.toNat && c.toNat ≤ range.2

end CodeRanges

end ProcessLogic
