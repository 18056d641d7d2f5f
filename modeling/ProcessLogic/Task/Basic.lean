import ProcessLogic.Engine.Exchange
import ProcessLogic.Task.Question

/-!
# Verification tasks

A task is a question with the answer known so far.  At most one *dispatch* of it is outstanding: an
exchange with an engine that will answer later.  Meanwhile the question may be edited and the
dispatch may be aborted, and an answer to a question that is no longer asked must not be kept.

## Two counters

Every edit makes a new *revision* and forgets the answer.  Every dispatch has a *generation* of
its own and remembers the revision it was started at.  A dispatch settles the task only while it
is the outstanding one, so one that was aborted settles nothing, however late it reports; and
what it settles is its verdict if the revision is still the same, and nothing known otherwise.

Both count in words of 64 bits.
-/

namespace ProcessLogic

/-- A question, its answer so far, and who is working on it. -/
structure Task where
  id : Nat
  question : Question
  answer : Verdict := .unknown
  revision : UInt64 := 0
  nextGeneration : UInt64 := 0
  /-- The generation of the outstanding dispatch. -/
  outstanding : Option UInt64 := none
deriving DecidableEq, Repr

/-- What a dispatch takes with it when it is started. -/
structure Dispatch where
  generation : UInt64
  revision : UInt64
  program : String
  request : Request
deriving DecidableEq, Repr

inductive TaskError where
  | alreadyRunning (task : Nat)
  | noRuntime
  | notApplicable (task : Nat) (kind : Question.Kind) (field : Field)
deriving DecidableEq, Repr

namespace TaskError

def taskName (id : Nat) : String := "property " ++ .ofList (Decimal.digits id)

def message : TaskError → String
  | .alreadyRunning task =>
      taskName task ++ " is already being verified; abort it or wait for completion"
  | .noRuntime => "verification requires a running tokio runtime"
  | .notApplicable task kind field =>
      taskName task ++ " is a " ++ kind.label ++ " check and has no " ++ field.label

end TaskError

namespace Task

/-- A task whose question has not been dispatched yet. -/
def new (id : Nat) (question : Question) : Task := { id, question }

def isVerifying (t : Task) : Bool := t.outstanding.isSome

/-- Replaces the question, which makes a new revision. -/
def ask (t : Task) (question : Question) : Task :=
  { t with question, answer := .unknown, revision := t.revision + 1 }

/-- Edits a field of the question. -/
def edit (t : Task) (e : Edit) : Except TaskError Task :=
  match t.question.edit? e with
  | some question => .ok (t.ask question)
  | none => .error (.notApplicable t.id t.question.kind e.field)

/-- Starts a dispatch of the question as it is now.  `hosted` says whether there is anything that
could run it; this is asked first. -/
def verify (t : Task) (hosted : Bool) (program : String) : Except TaskError (Dispatch × Task) :=
  if !hosted then
    .error .noRuntime
  else if t.isVerifying then
    .error (.alreadyRunning t.id)
  else
    .ok (⟨t.nextGeneration, t.revision, program, t.question.request⟩,
      { t with nextGeneration := t.nextGeneration + 1, outstanding := some t.nextGeneration })

/-- Gives up the outstanding dispatch; the answer stays. -/
def abort (t : Task) : Task := { t with outstanding := none }

/-- Has a dispatch report its verdict; none if the dispatch is no longer outstanding. -/
def settle? (t : Task) (d : Dispatch) (verdict : Verdict) : Option Task :=
  if t.outstanding = some d.generation then
    some { t with
      outstanding := none
      answer := if t.revision = d.revision then verdict else .unknown }
  else
    none

def inspect (t : Task) : String :=
  Inspect.record "Property"
    [("id", Inspect.constructor "PropertyId" (.ofList (Decimal.digits t.id))),
      ("question", t.question.inspect),
      ("satisfiable", t.answer.inspect),
      ("verifying", Inspect.bool t.isVerifying)]

@[simp] theorem answer_ask (t : Task) (q : Question) : (t.ask q).answer = .unknown := rfl
@[simp] theorem question_ask (t : Task) (q : Question) : (t.ask q).question = q := rfl
@[simp] theorem revision_ask (t : Task) (q : Question) :
    (t.ask q).revision = t.revision + 1 := rfl
@[simp] theorem outstanding_ask (t : Task) (q : Question) :
    (t.ask q).outstanding = t.outstanding := rfl
@[simp] theorem answer_abort (t : Task) : t.abort.answer = t.answer := rfl
@[simp] theorem question_abort (t : Task) : t.abort.question = t.question := rfl
@[simp] theorem outstanding_abort (t : Task) : t.abort.outstanding = none := rfl
@[simp] theorem isVerifying_abort (t : Task) : t.abort.isVerifying = false := rfl

end Task

end ProcessLogic
