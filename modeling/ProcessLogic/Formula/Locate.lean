import ProcessLogic.Formula.Definitions

/-!
# Finding the node that was clicked

A click reports an id.  The node with that id is looked for where the markup put its spans and
nowhere else: among the children of the formula on display, or, for a variable, at the body of
the fixed point it is defined as.
-/

namespace ProcessLogic

namespace Formula

/-- The formula itself, if its id is the one looked for. -/
def guardId (target : FormulaId) (f : Formula) : Option Formula :=
  if f.id = target then some f else none

/-- The node one click below the root that has a given id. -/
def locate (defs : Definitions) (target : FormulaId) :
    Formula → Except FormulaError (Option Formula)
  | .truth _ _ => .ok none
  | .connective _ _ first rest => .ok ((first :: rest).find? fun f => f.id = target)
  | .modal _ _ _ sub => .ok (sub.guardId target)
  | .fixed _ _ _ body => .ok (body.guardId target)
  | .var _ name => do
      return (← defs.resolve name).fixedBody?.bind (guardId target)

end Formula

end ProcessLogic
