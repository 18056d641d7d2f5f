import ProcessLogic.Task.Basic

/-!
# Runs of a task

What happens to a task is a sequence of events: calls of its owner, and reports of dispatches.  A
dispatch may report at any time after it was started, also after it was aborted and after later
ones were started.  A `Run` is a task together with all dispatches it has ever started and a
record of those that have completed, whose owner has then been told so.
-/

namespace ProcessLogic

/-- A task and its history. -/
structure Run where
  task : Task
  /-- All dispatches that have been started, first one first. -/
  started : List Dispatch := []
  /-- The generations of the dispatches whose completion has been announced. -/
  completed : List UInt64 := []
deriving Repr

/-- Something that happens to a task. -/
inductive Event where
  | verify (hosted : Bool) (program : String)
  | abort
  /-- The owner lets go of the task, which aborts it. -/
  | drop
  | ask (question : Question)
  | edit (e : Edit)
  /-- The dispatch of a generation reports. -/
  | report (generation : UInt64) (verdict : Verdict)
deriving DecidableEq, Repr

namespace Run

def new (id : Nat) (question : Question) : Run := { task := .new id question }

/-- How often the owner has been told of a completion. -/
def calls (r : Run) : Nat := r.completed.length

/-- The dispatch of a generation, if there ever was one. -/
def dispatch? (r : Run) (generation : UInt64) : Option Dispatch :=
  r.started.find? fun d => d.generation = generation

/-- The outstanding dispatch. -/
def outstanding? (r : Run) : Option Dispatch := r.task.outstanding.bind r.dispatch?

def verify (r : Run) (hosted : Bool) (program : String) : Except TaskError Run :=
  match r.task.verify hosted program with
  | .error error => .error error
  | .ok (d, task) => .ok { r with task, started := r.started ++ [d] }

def abort (r : Run) : Run := { r with task := r.task.abort }

def ask (r : Run) (question : Question) : Run := { r with task := r.task.ask question }

def edit (r : Run) (e : Edit) : Except TaskError Run :=
  match r.task.edit e with
  | .error error => .error error
  | .ok task => .ok { r with task }

/-- Has a dispatch report.  If it settles the task, its completion is announced. -/
def report (r : Run) (d : Dispatch) (verdict : Verdict) : Run :=
  match r.task.settle? d verdict with
  | some task => { r with task, completed := r.completed ++ [d.generation] }
  | none => r

/-- What an event makes of a run.  A call that is refused changes nothing, and neither does a
report of a dispatch that never was. -/
def step (r : Run) : Event → Run
  | .verify hosted program => (r.verify hosted program).toOption.getD r
  | .abort | .drop => r.abort
  | .ask question => r.ask question
  | .edit e => (r.edit e).toOption.getD r
  | .report generation verdict =>
      match r.dispatch? generation with
      | some d => r.report d verdict
      | none => r

/-- The run that a sequence of events makes of a new task. -/
def ofEvents (id : Nat) (question : Question) (events : List Event) : Run :=
  events.foldl step (new id question)

end Run

end ProcessLogic
