import ProcessLogic.Formula.Build

/-!
# Named definitions

A variable means what its name is defined as.  Definitions are kept in the order in which their
names were first defined; defining a name again replaces its formula and leaves it in its place.
-/

namespace ProcessLogic

/-- Formulas by name, in the order of first definition. -/
structure Definitions where
  entries : List (String × Formula) := []
deriving Repr

namespace Definitions

def empty : Definitions := {}

def names (defs : Definitions) : List String := defs.entries.map Prod.fst

def size (defs : Definitions) : Nat := defs.entries.length

def isEmpty (defs : Definitions) : Bool := defs.entries.isEmpty

/-- The formula of the first entry for a name. -/
def get (name : String) : List (String × Formula) → Option Formula
  | [] => none
  | entry :: rest => if entry.1 = name then some entry.2 else get name rest

/-- The formula a name is defined as. -/
def find? (defs : Definitions) (name : String) : Option Formula := get name defs.entries

/-- The entries with `name` standing for `f`: in its old place, or at the end if it is new. -/
def put (name : String) (f : Formula) : List (String × Formula) → List (String × Formula)
  | [] => [(name, f)]
  | entry :: rest =>
      if entry.1 = name then (name, f) :: rest else entry :: put name f rest

/-- Defines a name; the first component is the formula that this replaces. -/
def define (defs : Definitions) (name : String) (f : Formula) : Option Formula × Definitions :=
  (defs.find? name, ⟨put name f defs.entries⟩)

/-- Builds the fixed point that binds `name` in `body`, and defines `name` as that node. -/
def defineFixed (defs : Definitions) (op : FixedPoint) (name : String) (body : Formula) :
    Build (Formula × Definitions) := do
  let f ← Build.fixed op name body
  return (f, (defs.define name f).2)

/-- The formula a name is defined as, or the complaint that there is none. -/
def resolve (defs : Definitions) (name : String) : Except FormulaError Formula :=
  match defs.find? name with
  | some f => .ok f
  | none => .error (.undefinedVariable name)

@[simp] theorem find?_empty (name : String) : empty.find? name = none := rfl

theorem get_put (name other : String) (f : Formula) (entries : List (String × Formula)) :
    get other (put name f entries) = if other = name then some f else get other entries := by
  induction entries with
  | nil => simp [put, get, eq_comm]
  | cons entry entries ih =>
      by_cases he : entry.1 = name
      · by_cases ho : other = name
        · simp [put, get, he, ho]
        · simp [put, get, he, ho, Ne.symm ho]
      · by_cases ho : other = name
        · subst ho
          simp [put, get, he, ih]
        · simp [put, get, he, ih, ho]

/-- The last definition of exactly this name counts. -/
@[simp] theorem find?_define (defs : Definitions) (name other : String) (f : Formula) :
    (defs.define name f).2.find? other = if other = name then some f else defs.find? other :=
  get_put name other f defs.entries

end Definitions

end ProcessLogic
