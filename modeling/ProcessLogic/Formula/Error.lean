import ProcessLogic.Formula.Text

/-!
# What can go wrong with formulas

Three things: a variable without a definition, a connective without operands, and a selection that
is neither an id nor the leaf marker.  Each has a message, a code by which tools know it, and
perhaps a hint for whoever reads it.
-/

namespace ProcessLogic

inductive FormulaError where
  | undefinedVariable (name : String)
  | emptyConnective (op : Connective)
  /-- The selection as it came in, blanks included. -/
  | malformedSelection (raw : String)
deriving DecidableEq, Repr

namespace FormulaError

def message : FormulaError → String
  | .undefinedVariable name => "HML variable " ++ name ++ " has no definition"
  | .emptyConnective op => op.label ++ " needs at least one subformula"
  | .malformedSelection raw => "malformed subformula selection '" ++ raw ++ "'"

def code : FormulaError → String
  | .undefinedVariable _ => "ccsv::hml::undefined_variable"
  | .emptyConnective _ => "ccsv::hml::empty_connective"
  | .malformedSelection _ => "ccsv::hml::malformed_selection"

/-- How to mend it, where there is a hint. -/
def help? : FormulaError → Option String
  | .undefinedVariable _ => some "add a definition for the variable to the formula set"
  | .emptyConnective _ => none
  | .malformedSelection _ => some "selections are formula ids or -1 for a leaf"

end FormulaError

end ProcessLogic
