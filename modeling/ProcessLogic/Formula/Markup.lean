import ProcessLogic.Formula.Definitions
import ProcessLogic.Formula.Target
import ProcessLogic.Text.Entity

/-!
# Formulas as markup

A formula is shown one operator at a time.  Of the formula on display only the root answers to
clicks: the operands of a connective are one span each, a modality or a fixed point is a single
span that leads to what it governs, and a variable leads to the body of the fixed point it is
defined as.  Everything below the root is plain escaped text.

The two levels are two functions.  `Formula.plain` writes a formula without any span, and
`Formula.markup` writes the root around it.  Both look up every variable they meet, and fail at
the first one without a definition.
-/

namespace ProcessLogic

namespace Formula

variable (defs : Definitions)

mutual

/-- A formula below the root: escaped text, nothing to click. -/
def plain : Formula → Except FormulaError String
  | .truth _ value => .ok (truthText value)
  | .connective _ op first rest => do
      let inner ← first.plain
      let others ← plainOperands op rest
      return op.separator.intercalate (parenthesize (op.wraps first) inner :: others)
  | .modal _ op actions sub => do
      let inner ← sub.plain
      return escape (op.text actions) ++ parenthesize sub.isConnective inner
  | .fixed _ op name body => do
      let inner ← body.plain
      return escape name ++ op.binder ++ parenthesize body.isConnective inner
  | .var _ name => do
      let _ ← defs.resolve name
      return escape name

/-- The operands of a connective below the root. -/
def plainOperands (op : Connective) : List Formula → Except FormulaError (List String)
  | [] => .ok []
  | f :: rest => do
      let inner ← f.plain
      let others ← plainOperands op rest
      return parenthesize (op.wraps f) inner :: others

end

/-- The operands of the connective on display, a span for each. -/
def spans (op : Connective) : List Formula → Except FormulaError (List String)
  | [] => .ok []
  | f :: rest => do
      let inner ← f.plain defs
      let others ← spans op rest
      return (Target.node f.id).clickable (parenthesize (op.wraps f) inner) :: others

/-- The formula on display. -/
def markup : Formula → Except FormulaError String
  | .truth _ value => .ok (Target.leaf.clickable (truthText value))
  | .connective _ op first rest => do
      return op.separator.intercalate (← spans defs op (first :: rest))
  | .modal _ op actions sub => do
      let inner ← sub.plain defs
      return (Target.node sub.id).clickable
        (escape (op.text actions) ++ parenthesize sub.isConnective inner)
  | .fixed _ op name body => do
      let inner ← body.plain defs
      return (Target.node body.id).clickable
        (escape name ++ op.binder ++ parenthesize body.isConnective inner)
  | .var _ name => do
      let definition ← defs.resolve name
      match definition.fixedBody? with
      | some body => return (Target.node body.id).clickable (escape name)
      | none => return escape name

/-- Whether the formula on display offers a click that leads to a node. -/
def leadsOn : Formula → Except FormulaError Bool
  | .truth _ _ => .ok false
  | .connective _ _ _ _ | .modal _ _ _ _ | .fixed _ _ _ _ => .ok true
  | .var _ name => do
      return (← defs.resolve name).fixedBody?.isSome

end Formula

end ProcessLogic
