import ProcessLogic.Formula.Actions

/-!
# Formulas of Hennessy-Milner logic with fixed points

A formula is a tree of *nodes*.  Every node carries the id it was given when it was built, and the
same node may occur in several places: occurrences with one id are the same node.  Markup speaks
of nodes by id alone, so ids are words of 64 bits that fit into an attribute as they are.

## Why a first operand

A disjunction or conjunction of nothing is no formula.  Its operands are therefore kept as the
first one and the rest, and no function on formulas has to ask for the empty case.
-/

namespace ProcessLogic

/-- The identity of a node. -/
structure FormulaId where
  value : UInt64
deriving DecidableEq, Repr

inductive Connective where
  | disjunction
  | conjunction
deriving DecidableEq, Repr

/-- Modal operators: some transition or every transition, of one step or of any number of silent
steps around it. -/
inductive Modality where
  | diamond
  | box
  | weakDiamond
  | weakBox
deriving DecidableEq, Repr

inductive FixedPoint where
  | least
  | greatest
deriving DecidableEq, Repr

/-- A formula, by the operator at its root. -/
inductive Formula where
  | truth (id : FormulaId) (value : Bool)
  | connective (id : FormulaId) (op : Connective) (first : Formula) (rest : List Formula)
  | modal (id : FormulaId) (op : Modality) (actions : Actions) (sub : Formula)
  | fixed (id : FormulaId) (op : FixedPoint) (name : String) (body : Formula)
  | var (id : FormulaId) (name : String)
deriving Repr

namespace Formula

def id : Formula → FormulaId
  | .truth id _ | .connective id _ _ _ | .modal id _ _ _ | .fixed id _ _ _ | .var id _ => id

/-- The nodes one step below the root, from left to right. -/
def children : Formula → List Formula
  | .truth _ _ | .var _ _ => []
  | .connective _ _ first rest => first :: rest
  | .modal _ _ _ sub => [sub]
  | .fixed _ _ _ body => [body]

/-- The body of a fixed point. -/
def fixedBody? : Formula → Option Formula
  | .fixed _ _ _ body => some body
  | _ => none

def isDisjunction : Formula → Bool
  | .connective _ .disjunction _ _ => true
  | _ => false

def isConnective : Formula → Bool
  | .connective _ _ _ _ => true
  | _ => false

mutual

/-- The number of nodes, each counted as often as it occurs. -/
def size : Formula → Nat
  | .truth _ _ | .var _ _ => 1
  | .connective _ _ first rest => 1 + (first.size + sizeAll rest)
  | .modal _ _ _ sub => 1 + sub.size
  | .fixed _ _ _ body => 1 + body.size

def sizeAll : List Formula → Nat
  | [] => 0
  | f :: rest => f.size + sizeAll rest

end

mutual

/-- All nodes, the root first and then those below each child in turn. -/
def preorder : Formula → List Formula
  | f@(.truth _ _) | f@(.var _ _) => [f]
  | f@(.connective _ _ first rest) => f :: (first.preorder ++ preorderAll rest)
  | f@(.modal _ _ _ sub) => f :: sub.preorder
  | f@(.fixed _ _ _ body) => f :: body.preorder

def preorderAll : List Formula → List Formula
  | [] => []
  | f :: rest => f.preorder ++ preorderAll rest

end

@[simp] theorem children_truth (i : FormulaId) (v : Bool) : (truth i v).children = [] := rfl
@[simp] theorem children_var (i : FormulaId) (x : String) : (var i x).children = [] := rfl
@[simp] theorem children_connective (i : FormulaId) (op : Connective) (f : Formula)
    (fs : List Formula) : (connective i op f fs).children = f :: fs := rfl
@[simp] theorem children_modal (i : FormulaId) (op : Modality) (a : Actions) (f : Formula) :
    (modal i op a f).children = [f] := rfl
@[simp] theorem children_fixed (i : FormulaId) (op : FixedPoint) (x : String) (f : Formula) :
    (fixed i op x f).children = [f] := rfl

/-- To prove a property of all formulas, prove it of a formula whose children have it. -/
@[elab_as_elim]
theorem induction {motive : Formula → Prop}
    (truth : ∀ i v, motive (.truth i v))
    (connective : ∀ i op f fs, motive f → (∀ g ∈ fs, motive g) → motive (.connective i op f fs))
    (modal : ∀ i op a f, motive f → motive (.modal i op a f))
    (fixed : ∀ i op x f, motive f → motive (.fixed i op x f))
    (var : ∀ i x, motive (.var i x)) (f : Formula) : motive f :=
  Formula.rec (motive_1 := motive) (motive_2 := fun fs => ∀ g ∈ fs, motive g)
    truth connective modal fixed var (by simp)
    (fun g gs hg hgs => by
      intro h hh
      rcases List.mem_cons.mp hh with rfl | hh
      · exact hg
      · exact hgs h hh) f

end Formula

end ProcessLogic
