import ProcessLogic.Formula.Error

/-!
# Building formulas

Ids come from a supply that counts up: every node that is built takes the next one, and a
connective that is refused takes none.  Building is therefore a state monad over the next id, and
a node that has been built keeps its id whatever fails afterwards.
-/

namespace ProcessLogic

/-- A computation that builds nodes; its state is the id that the next node gets. -/
abbrev Build := StateM UInt64

namespace Build

/-- The next id of the supply. -/
def fresh : Build FormulaId := modifyGet fun next => (⟨next⟩, next + 1)

def truth (value : Bool) : Build Formula := do
  return .truth (← fresh) value

/-- A connective of the given operands, unless there are none. -/
def connective (op : Connective) : List Formula → Build (Except FormulaError Formula)
  | [] => return .error (.emptyConnective op)
  | first :: rest => do
      return .ok (.connective (← fresh) op first rest)

def modal (op : Modality) (actions : Actions) (sub : Formula) : Build Formula := do
  return .modal (← fresh) op actions sub

def fixed (op : FixedPoint) (name : String) (body : Formula) : Build Formula := do
  return .fixed (← fresh) op name body

def var (name : String) : Build Formula := do
  return .var (← fresh) name

variable (next : UInt64)

@[simp] theorem run_fresh : fresh.run next = (⟨next⟩, next + 1) := rfl

@[simp] theorem run_truth (v : Bool) : (truth v).run next = (.truth ⟨next⟩ v, next + 1) := rfl

@[simp] theorem run_connective_nil (op : Connective) :
    (connective op []).run next = (.error (.emptyConnective op), next) := rfl

@[simp] theorem run_connective_cons (op : Connective) (f : Formula) (fs : List Formula) :
    (connective op (f :: fs)).run next = (.ok (.connective ⟨next⟩ op f fs), next + 1) := rfl

@[simp] theorem run_modal (op : Modality) (a : Actions) (f : Formula) :
    (modal op a f).run next = (.modal ⟨next⟩ op a f, next + 1) := rfl

@[simp] theorem run_fixed (op : FixedPoint) (x : String) (f : Formula) :
    (fixed op x f).run next = (.fixed ⟨next⟩ op x f, next + 1) := rfl

@[simp] theorem run_var (x : String) : (var x).run next = (.var ⟨next⟩ x, next + 1) := rfl

end Build

end ProcessLogic
