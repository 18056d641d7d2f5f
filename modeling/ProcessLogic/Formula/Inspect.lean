import ProcessLogic.Formula.Explorer
import ProcessLogic.Text.Inspect

/-!
# Formulas and explorers for inspection

A node is shown with its id and its kind, and with everything below it.  An explorer is shown
with its definitions in their order; of the formula on display only the id is given, since the
formula itself may be large, and of a listener only whether there is one.
-/

namespace ProcessLogic

def Actions.inspect : Actions → String
  | .any => "Any"
  | .only labels => Inspect.constructor "Only" (Inspect.list (labels.map Inspect.string))
  | .except labels => Inspect.constructor "Except" (Inspect.list (labels.map Inspect.string))
  | .custom text => Inspect.constructor "Custom" (Inspect.string text)

def Connective.kind : Connective → String
  | .disjunction => "Disjunction"
  | .conjunction => "Conjunction"

def Modality.kind : Modality → String
  | .diamond => "StrongExists"
  | .box => "StrongForAll"
  | .weakDiamond => "WeakExists"
  | .weakBox => "WeakForAll"

def FixedPoint.kind : FixedPoint → String
  | .least => "MinFixedPoint"
  | .greatest => "MaxFixedPoint"

def FormulaId.inspect (id : FormulaId) : String :=
  Inspect.constructor "FormulaId" (Target.node id).text

namespace Formula

/-- A node of a given id and kind. -/
def inspectNode (id : FormulaId) (kind : String) : String :=
  Inspect.record "Formula" [("id", id.inspect), ("kind", kind)]

mutual

def inspect : Formula → String
  | .truth id value => inspectNode id (if value then "True" else "False")
  | .connective id op first rest =>
      inspectNode id
        (Inspect.constructor op.kind (Inspect.list (first.inspect :: inspectAll rest)))
  | .modal id op actions sub =>
      inspectNode id (Inspect.constructor op.kind
        (Inspect.record "Modality" [("actions", actions.inspect), ("sub", sub.inspect)]))
  | .fixed id op name body =>
      inspectNode id (Inspect.constructor op.kind
        (Inspect.record "FixedPoint"
          [("variable", Inspect.string name), ("sub", body.inspect)]))
  | .var id name => inspectNode id (Inspect.constructor "Variable" (Inspect.string name))

def inspectAll : List Formula → List String
  | [] => []
  | f :: rest => f.inspect :: inspectAll rest

end

end Formula

def Definitions.inspect (defs : Definitions) : String :=
  Inspect.record "FormulaSet"
    [("definitions", Inspect.map
      (defs.entries.map fun entry => (Inspect.string entry.1, entry.2.inspect)))]

def Explorer.inspect (e : Explorer) : String :=
  Inspect.record "SubformulaSelector"
    [("formulas", e.definitions.inspect),
      ("current", Inspect.option (e.current.map fun f => f.id.inspect)),
      ("markup", Inspect.string e.markup),
      ("has_listener", Inspect.bool e.heard.isSome)]

end ProcessLogic
