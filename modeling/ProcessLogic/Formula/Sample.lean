import ProcessLogic.Formula.Definitions

/-!
# Sample formulas

Formulas to try things on: every operator, every shape of action set, operands from one to three,
at most four levels below the root.  Free variables are among those of `standardDefinitions`, so
every sample can be shown; binders use names of their own.

## Drawing

A sample is drawn, not enumerated: the choices come from a sequence of words that a seed
determines, and the nodes come from the supply of ids.  Equal seeds give equal samples.
-/

namespace ProcessLogic

/-- A computation that draws; its states are the word drawn last and the supply of ids. -/
abbrev Sample := StateT UInt64 Build

namespace Sample

/-- The next word of the sequence. -/
def step (word : UInt64) : UInt64 := word * 6364136223846793005 + 1442695040888963407

/-- A number below `bound`, taken from the high bits of the next word. -/
def below (bound : Nat) : Sample Nat :=
  modifyGet fun word => ((step word >>> 33).toNat % bound, step word)

/-- One of the given values. -/
def oneOf {α : Type} (first : α) (rest : List α) : Sample α := do
  return (first :: rest).getD (← below (rest.length + 1)) first

def label : Sample String := oneOf "a" ["b", "tau", "'c"]

/-- One or two labels. -/
def labels : Sample (List String) := do
  if (← below 2) = 0 then
    return [← label]
  else
    return [← label, ← label]

def actions : Sample Actions := do
  match ← below 3 with
  | 0 => return .any
  | 1 => return .only (← labels)
  | _ => return .except (← labels)

/-- The variables that occur free in samples. -/
def definedVariables : List String := ["X", "Y", "Z"]

def leaf : Sample Formula := do
  match ← below 3 with
  | 0 => Build.truth true
  | 1 => Build.truth false
  | _ => Build.var (← oneOf "X" ["Y", "Z"])

/-- A formula with at most the given number of levels below its root. -/
def formula : Nat → Sample Formula
  | 0 => leaf
  | levels + 1 => do
      match ← below 10 with
      | 0 | 1 => leaf
      | 2 => operands levels .disjunction
      | 3 => operands levels .conjunction
      | 4 => Build.modal .diamond (← actions) (← formula levels)
      | 5 => Build.modal .box (← actions) (← formula levels)
      | 6 => Build.modal .weakDiamond (← actions) (← formula levels)
      | 7 => Build.modal .weakBox (← actions) (← formula levels)
      | 8 => Build.fixed .least "U" (← formula levels)
      | _ => Build.fixed .greatest "V" (← formula levels)
where
  /-- A connective of one to three operands. -/
  operands (levels : Nat) (op : Connective) : Sample Formula := do
    let first ← formula levels
    let rest ← (List.range (← below 3)).mapM fun _ => formula levels
    return .connective (← Build.fresh) op first rest

/-- The greatest number of levels below the root of a sample. -/
def maxLevels : Nat := 4

/-- Definitions for the free variables of samples: `X max= [a]T`, `Y min= (<b>F and T)`, and `Z`,
which is `T` and no fixed point.  No body mentions a variable. -/
def standardDefinitions : Build Definitions := do
  let boxed ← Build.modal .box (.single "a") (← Build.truth true)
  let (_, defs) ← Definitions.empty.defineFixed .greatest "X" boxed
  let diamond ← Build.modal .diamond (.single "b") (← Build.truth false)
  let top ← Build.truth true
  let both := Formula.connective (← Build.fresh) .conjunction diamond [top]
  let (_, defs) ← defs.defineFixed .least "Y" both
  return (defs.define "Z" (← Build.truth true)).2

end Sample

end ProcessLogic
