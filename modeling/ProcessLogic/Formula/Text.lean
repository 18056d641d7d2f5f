import ProcessLogic.Formula.Basic

/-!
# The text of a formula

Formulas are written with few parentheses: a disjunction is wrapped inside a conjunction, and a
disjunction or conjunction is wrapped below a modality or a fixed point.  Nothing else is, so a
conjunction inside a disjunction stays bare, and so does a connective inside one of its own kind.

The decision is made by `Connective.wraps` and `Formula.isConnective`, for text and markup alike.
-/

namespace ProcessLogic

namespace Connective

/-- The name of what the operator builds. -/
def label : Connective → String
  | .disjunction => "disjunction"
  | .conjunction => "conjunction"

def separator : Connective → String
  | .disjunction => " or "
  | .conjunction => " and "

/-- Whether an operand is put in parentheses. -/
def wraps : Connective → Formula → Bool
  | .disjunction, _ => false
  | .conjunction, operand => operand.isDisjunction

end Connective

namespace Modality

def opening : Modality → String
  | .diamond => "<"
  | .box => "["
  | .weakDiamond => "<<"
  | .weakBox => "[["

def closing : Modality → String
  | .diamond => ">"
  | .box => "]"
  | .weakDiamond => ">>"
  | .weakBox => "]]"

/-- The operator as it is written: its actions between its brackets. -/
def text (op : Modality) (actions : Actions) : String :=
  op.opening ++ actions.text ++ op.closing

end Modality

namespace FixedPoint

/-- What stands between the bound name and the body. -/
def binder : FixedPoint → String
  | .least => " min= "
  | .greatest => " max= "

end FixedPoint

/-- Text in parentheses if they are called for. -/
def parenthesize (wrap : Bool) (text : String) : String :=
  if wrap then "(" ++ text ++ ")" else text

@[simp] theorem parenthesize_false (text : String) : parenthesize false text = text := rfl
@[simp] theorem parenthesize_true (text : String) :
    parenthesize true text = "(" ++ text ++ ")" := rfl

/-- The two constants. -/
def truthText (value : Bool) : String := if value then "T" else "F"

namespace Formula

mutual

/-- A formula as it is written. -/
def text : Formula → String
  | .truth _ value => truthText value
  | .connective _ op first rest =>
      op.separator.intercalate
        (parenthesize (op.wraps first) first.text :: operandTexts op rest)
  | .modal _ op actions sub => op.text actions ++ parenthesize sub.isConnective sub.text
  | .fixed _ op name body => name ++ op.binder ++ parenthesize body.isConnective body.text
  | .var _ name => name

/-- The texts of the operands of a connective. -/
def operandTexts (op : Connective) : List Formula → List String
  | [] => []
  | f :: rest => parenthesize (op.wraps f) f.text :: operandTexts op rest

end

@[simp] theorem text_truth (i : FormulaId) (v : Bool) : (truth i v).text = truthText v := rfl
@[simp] theorem text_var (i : FormulaId) (x : String) : (var i x).text = x := rfl
@[simp] theorem text_modal (i : FormulaId) (op : Modality) (a : Actions) (f : Formula) :
    (modal i op a f).text = op.text a ++ parenthesize f.isConnective f.text := by
  simp [text]
@[simp] theorem text_fixed (i : FormulaId) (op : FixedPoint) (x : String) (f : Formula) :
    (fixed i op x f).text = x ++ op.binder ++ parenthesize f.isConnective f.text := by
  simp [text]

theorem operandTexts_eq_map (op : Connective) (fs : List Formula) :
    operandTexts op fs = fs.map fun f => parenthesize (op.wraps f) f.text := by
  induction fs with
  | nil => simp [operandTexts]
  | cons f fs ih => simp [operandTexts, ih]

/-- The operands' texts, each wrapped where it has to be, with the separator between them. -/
@[simp] theorem text_connective (i : FormulaId) (op : Connective) (f : Formula)
    (fs : List Formula) :
    (connective i op f fs).text =
      op.separator.intercalate
        ((f :: fs).map fun g => parenthesize (op.wraps g) g.text) := by
  simp [text, operandTexts_eq_map]

end Formula

end ProcessLogic
