import ProcessLogic.Json.Record
import ProcessLogic.Json.Writer

/-!
# Requests to an engine

An engine is first told the program, and then what to check.  A request is one line: a record
with the tag `type`, and a newline.
-/

namespace ProcessLogic

inductive Request where
  | program (text : String)
  | stronglyBisimilar (left right : String)
  | weaklyBisimilar (left right : String)
  | checkFormula (process formula : String) (strict : Bool)
deriving DecidableEq, Repr

namespace Request

inductive Kind where
  | program
  | stronglyBisimilar
  | weaklyBisimilar
  | checkFormula
deriving DecidableEq, Repr

namespace Kind

/-- The tag of a request. -/
def name : Kind → String
  | .program => "program"
  | .stronglyBisimilar => "isStronglyBisimilar"
  | .weaklyBisimilar => "isWeaklyBisimilar"
  | .checkFormula => "checkFormula"

def ofName? : String → Option Kind
  | "program" => some .program
  | "isStronglyBisimilar" => some .stronglyBisimilar
  | "isWeaklyBisimilar" => some .weaklyBisimilar
  | "checkFormula" => some .checkFormula
  | _ => none

def fields : Kind → List String
  | .program => ["program"]
  | .stronglyBisimilar | .weaklyBisimilar => ["leftProcess", "rightProcess"]
  | .checkFormula => ["processName", "formula", "useStrict"]

@[simp] theorem ofName?_name (k : Kind) : ofName? k.name = some k := by
  cases k <;> rfl

end Kind

def tag : String := "type"

def kind : Request → Kind
  | .program _ => .program
  | .stronglyBisimilar _ _ => .stronglyBisimilar
  | .weaklyBisimilar _ _ => .weaklyBisimilar
  | .checkFormula _ _ _ => .checkFormula

/-- The values of the fields, in their order. -/
def fieldValues : Request → List Value
  | .program text => [.string text]
  | .stronglyBisimilar left right | .weaklyBisimilar left right => [.string left, .string right]
  | .checkFormula process formula strict => [.string process, .string formula, .bool strict]

/-- A request as a record. -/
def toValue (r : Request) : Value :=
  .object ((tag, .string r.kind.name) :: r.kind.fields.zip r.fieldValues)

/-- The line that is sent. -/
def line (r : Request) : String := r.toValue.compact ++ "\n"

/-- The request of a kind whose fields are among the given ones. -/
def ofFields? (entries : List (String × Value)) : Kind → Option Request
  | .program => do
      return .program (← Value.stringField? "program" entries)
  | .stronglyBisimilar => do
      return .stronglyBisimilar (← Value.stringField? "leftProcess" entries)
        (← Value.stringField? "rightProcess" entries)
  | .weaklyBisimilar => do
      return .weaklyBisimilar (← Value.stringField? "leftProcess" entries)
        (← Value.stringField? "rightProcess" entries)
  | .checkFormula => do
      return .checkFormula (← Value.stringField? "processName" entries)
        (← Value.stringField? "formula" entries) (← Value.boolField? "useStrict" entries)

def ofValue? (value : Value) : Option Request := do
  let (kind, entries) ← value.record? tag Kind.ofName? Kind.fields
  ofFields? entries kind

/-- Reads a request from its text. -/
def read? (text : String) : Option Request := do
  ofValue? (← Value.read? text)

end Request

end ProcessLogic
