import ProcessLogic.Json.Record

/-!
# Verdicts

An engine says that a question holds, that it does not, or nothing that could be taken for an
answer.  Only the two truth values of JSON are answers; whatever else comes back is unknown.
-/

namespace ProcessLogic

inductive Verdict where
  | unknown
  | satisfied
  | unsatisfied
deriving DecidableEq, Repr

namespace Verdict

def ofBool : Bool → Verdict
  | true => .satisfied
  | false => .unsatisfied

/-- The verdict that the result of a check stands for. -/
def ofResult : Value → Verdict
  | .bool answer => ofBool answer
  | _ => .unknown

def toBool? : Verdict → Option Bool
  | .unknown => none
  | .satisfied => some true
  | .unsatisfied => some false

def isKnown (v : Verdict) : Bool := v.toBool?.isSome

/-- The word that users read. -/
def label : Verdict → String
  | .unknown => "undetermined"
  | .satisfied => "satisfied"
  | .unsatisfied => "not satisfied"

/-- The word in JSON. -/
def name : Verdict → String
  | .unknown => "unknown"
  | .satisfied => "satisfied"
  | .unsatisfied => "unsatisfied"

/-- The constructor, for inspection. -/
def inspect : Verdict → String
  | .unknown => "Unknown"
  | .satisfied => "Satisfied"
  | .unsatisfied => "Unsatisfied"

/-- The icon, as markup. -/
def indicator : Verdict → String
  | .unknown => "<i class=\"fa fa-question\"></i>"
  | .satisfied => "<i class=\"fa fa-check\"></i>"
  | .unsatisfied => "<i class=\"fa fa-times\"></i>"

def ofName? : String → Option Verdict
  | "unknown" => some .unknown
  | "satisfied" => some .satisfied
  | "unsatisfied" => some .unsatisfied
  | _ => none

/-- The verdict that a value stands for: its name, alone or as the only key, with null. -/
def ofValue? : Value → Option Verdict
  | .string name => ofName? name
  | .object [(name, .null)] => ofName? name
  | _ => none

def read? (text : String) : Option Verdict := do
  ofValue? (← Value.read? text)

@[simp] theorem ofName?_name (v : Verdict) : ofName? v.name = some v := by
  cases v <;> rfl

@[simp] theorem toBool?_ofBool (b : Bool) : (ofBool b).toBool? = some b := by
  cases b <;> rfl

@[simp] theorem ofResult_bool (b : Bool) : ofResult (.bool b) = ofBool b := rfl

end Verdict

end ProcessLogic
