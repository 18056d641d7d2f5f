import ProcessLogic.Formula.Locate
import ProcessLogic.Formula.Markup
import ProcessLogic.Formula.Sample

/-!
# What occurs in a collection of formulas

A survey of samples: which operators, action sets, names and widths occur among all their nodes,
and whether the properties hold that every formula should have.  It is how one sees that the
samples reach everything they are meant to reach.
-/

namespace ProcessLogic

namespace Formula

/-- The kind of a node, by name. -/
def kindName : Formula → String
  | .truth _ true => "true"
  | .truth _ false => "false"
  | .connective _ .disjunction _ _ => "disjunction"
  | .connective _ .conjunction _ _ => "conjunction"
  | .modal _ .diamond _ _ => "strong_exists"
  | .modal _ .box _ _ => "strong_for_all"
  | .modal _ .weakDiamond _ _ => "weak_exists"
  | .modal _ .weakBox _ _ => "weak_for_all"
  | .fixed _ .least _ _ => "min_fixed_point"
  | .fixed _ .greatest _ _ => "max_fixed_point"
  | .var _ _ => "variable"

mutual

/-- The number of levels below the root. -/
def levels : Formula → Nat
  | .truth _ _ | .var _ _ => 0
  | .connective _ _ first rest => 1 + max first.levels (levelsAll rest)
  | .modal _ _ _ sub => 1 + sub.levels
  | .fixed _ _ _ body => 1 + body.levels

/-- The greatest number of levels among several formulas. -/
def levelsAll : List Formula → Nat
  | [] => 0
  | f :: rest => max f.levels (levelsAll rest)

end

def actions? : Formula → Option Actions
  | .modal _ _ actions _ => some actions
  | _ => none

def variableName? : Formula → Option String
  | .var _ name => some name
  | _ => none

/-- The bound name and its keyword, as they stand in front of the body. -/
def binder? : Formula → Option String
  | .fixed _ .least name _ => some (name ++ " min=")
  | .fixed _ .greatest name _ => some (name ++ " max=")
  | _ => none

/-- The number of operands of a connective. -/
def width? : Formula → Option Nat
  | .connective _ _ _ rest => some (rest.length + 1)
  | _ => none

/-- Whether no node occurs twice. -/
def idsDistinct (f : Formula) : Bool := decide (f.preorder.map id).Nodup

/-- Whether the markup of a formula can be made, and every id in it is found again. -/
def drills (defs : Definitions) (f : Formula) : Bool :=
  match f.markup defs with
  | .error _ => false
  | .ok markup => (Target.ofMarkup markup).all fun target =>
      match target with
      | .leaf => true
      | .node id =>
          match f.locate defs id with
          | .ok (some g) => g.id = id
          | _ => false

end Formula

/-- The distinct members of a list of texts, in the order of their code points. -/
def sortedTexts (texts : List String) : List String :=
  texts.eraseDups.mergeSort fun s t => decide (s ≤ t)

/-- What occurs among the nodes of a collection of formulas. -/
structure Survey where
  kinds : List String
  actions : List String
  variableNames : List String
  binders : List String
  widths : List Nat
  withinLevels : Bool
  idsDistinct : Bool
  counted : Bool
  drills : Bool

/-- Surveys formulas that are shown with the given definitions. -/
def Survey.of (defs : Definitions) (formulas : List Formula) : Survey where
  kinds := sortedTexts (formulas.flatMap fun f => f.preorder.map Formula.kindName)
  actions := sortedTexts (formulas.flatMap fun f =>
    (f.preorder.filterMap Formula.actions?).map Actions.text)
  variableNames := sortedTexts (formulas.flatMap fun f =>
    f.preorder.filterMap Formula.variableName?)
  binders := sortedTexts (formulas.flatMap fun f => f.preorder.filterMap Formula.binder?)
  widths := (formulas.flatMap fun f => f.preorder.filterMap Formula.width?).eraseDups.mergeSort
  withinLevels := formulas.all fun f => f.levels ≤ Sample.maxLevels
  idsDistinct := formulas.all Formula.idsDistinct
  counted := formulas.all fun f => f.size = f.preorder.length
  drills := formulas.all (Formula.drills defs)

namespace Sample

/-- Action sets, one for each seed below `count`. -/
def drawActions (count : Nat) : List Actions :=
  (List.range count).map fun seed => ((actions.run (UInt64.ofNat seed)).run 0).1.1

/-- Formulas, one for each seed below `count`, each with ids of its own that follow on those of
the standard definitions. -/
def drawFormulas (count : Nat) : Definitions × List Formula :=
  let (defs, next) := standardDefinitions.run 0
  (defs, (List.range count).map fun seed =>
    (((formula maxLevels).run (UInt64.ofNat seed)).run next).1.1)

end Sample

end ProcessLogic
