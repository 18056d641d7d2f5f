import ProcessLogic.Engine.Request
import ProcessLogic.Text.Entity
import ProcessLogic.Text.Inspect

/-!
# Questions about a program

Three kinds of question can be asked: whether two processes are strongly bisimilar, whether they
are weakly bisimilar, and whether a process satisfies a formula of Hennessy-Milner logic.  Formulas
are text here; what they mean is up to the engine.

## Edits

A question is edited one field at a time, or replaced as a whole.  A field that a kind of question
does not have cannot be edited: `Question.edit?` is then none, and otherwise it is the same
question with one field changed.
-/

namespace ProcessLogic

inductive Question where
  | strongBisimulation (first second : String)
  | weakBisimulation (first second : String)
  | hml (process formula : String) (strict : Bool)
deriving DecidableEq, Repr

/-- A field that some kind of question has. -/
inductive Field where
  | firstProcess
  | secondProcess
  | process
  | formula
  | semantics
deriving DecidableEq, Repr

/-- What a field is called in messages. -/
def Field.label : Field → String
  | .firstProcess => "first process"
  | .secondProcess => "second process"
  | .process => "process"
  | .formula => "formula"
  | .semantics => "semantics switch"

/-- A change to one field. -/
inductive Edit where
  | firstProcess (name : String)
  | secondProcess (name : String)
  | process (name : String)
  | formula (text : String)
  | semantics (strict : Bool)
deriving DecidableEq, Repr

def Edit.field : Edit → Field
  | .firstProcess _ => .firstProcess
  | .secondProcess _ => .secondProcess
  | .process _ => .process
  | .formula _ => .formula
  | .semantics _ => .semantics

namespace Question

inductive Kind where
  | strongBisimulation
  | weakBisimulation
  | hml
deriving DecidableEq, Repr

namespace Kind

/-- What a kind of question is called in messages. -/
def label : Kind → String
  | .strongBisimulation => "strong bisimulation"
  | .weakBisimulation => "weak bisimulation"
  | .hml => "HML"

/-- The tag of a question in JSON. -/
def name : Kind → String
  | .strongBisimulation => "strong_bisimulation"
  | .weakBisimulation => "weak_bisimulation"
  | .hml => "hml"

def ofName? : String → Option Kind
  | "strong_bisimulation" => some .strongBisimulation
  | "weak_bisimulation" => some .weakBisimulation
  | "hml" => some .hml
  | _ => none

def fields : Kind → List String
  | .strongBisimulation | .weakBisimulation => ["first_process", "second_process"]
  | .hml => ["process", "formula", "use_strict_semantics"]

@[simp] theorem ofName?_name (k : Kind) : ofName? k.name = some k := by
  cases k <;> rfl

end Kind

def kind : Question → Kind
  | .strongBisimulation _ _ => .strongBisimulation
  | .weakBisimulation _ _ => .weakBisimulation
  | .hml _ _ _ => .hml

/-! ### What a question says -/

/-- The question as it is stated. -/
def text : Question → String
  | .strongBisimulation first second => first ++ " ~ " ++ second
  | .weakBisimulation first second => first ++ " ~~ " ++ second
  | .hml process formula _ => process ++ " |= " ++ formula

/-- The question as it is stated in markup. -/
def describe : Question → String
  | .strongBisimulation first second => escape first ++ " ~ " ++ escape second
  | .weakBisimulation first second => escape first ++ " ~~ " ++ escape second
  | .hml process formula _ => escape process ++ " |= " ++ escape formula

/-- The names and the formula are escaped one by one, and the signs between them need no escape. -/
theorem describe_eq_escape_text (q : Question) : q.describe = escape q.text := by
  have strong : escape " ~ " = " ~ " := rfl
  have weak : escape " ~~ " = " ~~ " := rfl
  have models : escape " |= " = " |= " := rfl
  cases q <;> simp only [describe, text, escape_append, strong, weak, models]

/-- What an engine is asked, once it knows the program. -/
def request : Question → Request
  | .strongBisimulation first second => .stronglyBisimilar first second
  | .weakBisimulation first second => .weaklyBisimilar first second
  | .hml process formula strict => .checkFormula process formula strict

/-! ### Fields -/

def firstProcess? : Question → Option String
  | .strongBisimulation first _ | .weakBisimulation first _ => some first
  | .hml _ _ _ => none

def secondProcess? : Question → Option String
  | .strongBisimulation _ second | .weakBisimulation _ second => some second
  | .hml _ _ _ => none

def process? : Question → Option String
  | .hml process _ _ => some process
  | _ => none

def formula? : Question → Option String
  | .hml _ formula _ => some formula
  | _ => none

def strict? : Question → Option Bool
  | .hml _ _ strict => some strict
  | _ => none

/-- The question with one field changed, if it has that field. -/
def edit? : Edit → Question → Option Question
  | .firstProcess name, .strongBisimulation _ second => some (.strongBisimulation name second)
  | .firstProcess name, .weakBisimulation _ second => some (.weakBisimulation name second)
  | .secondProcess name, .strongBisimulation first _ => some (.strongBisimulation first name)
  | .secondProcess name, .weakBisimulation first _ => some (.weakBisimulation first name)
  | .process name, .hml _ formula strict => some (.hml name formula strict)
  | .formula text, .hml process _ strict => some (.hml process text strict)
  | .semantics strict, .hml process formula _ => some (.hml process formula strict)
  | _, _ => none

/-! ### In JSON -/

def tag : String := "kind"

/-- The values of the fields, in their order. -/
def fieldValues : Question → List Value
  | .strongBisimulation first second | .weakBisimulation first second =>
      [.string first, .string second]
  | .hml process formula strict => [.string process, .string formula, .bool strict]

/-- A question as a record. -/
def toValue (q : Question) : Value :=
  .object ((tag, .string q.kind.name) :: q.kind.fields.zip q.fieldValues)

/-- The question of a kind whose fields are among the given ones. -/
def ofFields? (entries : List (String × Value)) : Kind → Option Question
  | .strongBisimulation => do
      return .strongBisimulation (← Value.stringField? "first_process" entries)
        (← Value.stringField? "second_process" entries)
  | .weakBisimulation => do
      return .weakBisimulation (← Value.stringField? "first_process" entries)
        (← Value.stringField? "second_process" entries)
  | .hml => do
      return .hml (← Value.stringField? "process" entries)
        (← Value.stringField? "formula" entries)
        (← Value.switchField? "use_strict_semantics" entries)

def ofValue? (value : Value) : Option Question := do
  let (kind, entries) ← value.record? tag Kind.ofName? Kind.fields
  ofFields? entries kind

/-- Reads a question from its text. -/
def read? (text : String) : Option Question := do
  ofValue? (← Value.read? text)

/-- A question, for inspection. -/
def inspect : Question → String
  | .strongBisimulation first second =>
      Inspect.record "StrongBisimulation"
        [("first_process", Inspect.string first), ("second_process", Inspect.string second)]
  | .weakBisimulation first second =>
      Inspect.record "WeakBisimulation"
        [("first_process", Inspect.string first), ("second_process", Inspect.string second)]
  | .hml process formula strict =>
      Inspect.record "Hml"
        [("process", Inspect.string process), ("formula", Inspect.string formula),
          ("use_strict_semantics", Inspect.bool strict)]

end Question

end ProcessLogic
