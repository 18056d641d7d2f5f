import ProcessLogic.Task.Run
import Mathlib.Data.List.Induction

/-!
# What events come to

Whether an event does anything depends on the run it meets: a call may be refused, and a report may
come from a dispatch that no longer counts.  An `Effect` is what really happened, as the operations
of the task answered, and the *log* of a run is the sequence of its effects.  Statements about the
past of a run speak of its log.

## One step

`Run.step_eq_apply` says what each effect does to a run, and `Run.enabled_effect` in which runs an
effect can come about at all.  Invariants are proved from these two, without a second look at the
operations, and `Run.ofEvents_induction` carries them along a whole run.
-/

namespace ProcessLogic

/-- What an event has come to. -/
inductive Effect where
  /-- A dispatch has been started. -/
  | start (d : Dispatch)
  /-- The outstanding dispatch, of this generation, has been given up. -/
  | abort (generation : UInt64)
  /-- The question has been edited, and is this one now. -/
  | edit (question : Question)
  /-- A dispatch has settled the task, and its completion has been announced. -/
  | settle (d : Dispatch) (verdict : Verdict)
  /-- A call was refused, or there was nothing to do. -/
  | idle
deriving DecidableEq, Repr

namespace Effect

def started? : Effect → Option Dispatch
  | .start d => some d
  | _ => none

/-- The generation of the dispatch that was given up. -/
def aborted? : Effect → Option UInt64
  | .abort generation => some generation
  | _ => none

/-- The generation of the dispatch that settled the task. -/
def settled? : Effect → Option UInt64
  | .settle d _ => some d.generation
  | _ => none

def isEdit : Effect → Bool
  | .edit _ => true
  | _ => false

def isSettle : Effect → Bool
  | .settle _ _ => true
  | _ => false

theorem mem_aborted_iff {log : List Effect} {generation : UInt64} :
    generation ∈ log.filterMap aborted? ↔ .abort generation ∈ log := by
  rw [List.mem_filterMap]
  constructor
  · rintro ⟨x, hx, h⟩
    cases x with
    | abort g =>
        cases h
        exact hx
    | _ => cases h
  · exact fun h ↦ ⟨_, h, rfl⟩

theorem mem_started_iff {log : List Effect} {d : Dispatch} :
    d ∈ log.filterMap started? ↔ .start d ∈ log := by
  rw [List.mem_filterMap]
  constructor
  · rintro ⟨x, hx, h⟩
    cases x with
    | start d' =>
        cases h
        exact hx
    | _ => cases h
  · exact fun h ↦ ⟨_, h, rfl⟩

end Effect

namespace Task

/-- A verification is refused where nothing can run it, and while a dispatch is outstanding.  What
it starts otherwise is a dispatch of the next generation, of the question as it is now. -/
theorem verify_eq (t : Task) (hosted : Bool) (program : String) :
    t.verify hosted program =
      if hosted = false then .error .noRuntime
      else if t.outstanding = none then
        .ok (⟨t.nextGeneration, t.revision, program, t.question.request⟩,
          { t with
            nextGeneration := t.nextGeneration + 1
            outstanding := some t.nextGeneration })
      else .error (.alreadyRunning t.id) := by
  cases hosted with
  | false => rfl
  | true => cases h : t.outstanding <;> simp [verify, isVerifying, h]

/-- An edit that goes through asks another question, and that is all it does. -/
theorem exists_ask_of_edit {t t' : Task} {e : Edit} (h : t.edit e = .ok t') :
    ∃ question, t' = t.ask question := by
  unfold edit at h
  split at h
  · exact ⟨_, (Except.ok.inj h).symm⟩
  · cases h

theorem settle?_eq (t : Task) (d : Dispatch) (verdict : Verdict) :
    t.settle? d verdict =
      if t.outstanding = some d.generation then
        some { t with
          outstanding := none
          answer := if t.revision = d.revision then verdict else .unknown }
      else none := rfl

end Task

namespace Run

/-- What an event comes to in a run. -/
def effect (r : Run) : Event → Effect
  | .verify hosted program =>
      match r.task.verify hosted program with
      | .ok (d, _) => .start d
      | .error _ => .idle
  | .abort | .drop =>
      match r.task.outstanding with
      | some generation => .abort generation
      | none => .idle
  | .ask question => .edit question
  | .edit e =>
      match r.task.edit e with
      | .ok task => .edit task.question
      | .error _ => .idle
  | .report generation verdict =>
      match r.dispatch? generation with
      | some d => if (r.task.settle? d verdict).isSome then .settle d verdict else .idle
      | none => .idle

/-- What the events of a sequence come to, one after the other. -/
def log (r : Run) : List Event → List Effect
  | [] => []
  | e :: rest => r.effect e :: (r.step e).log rest

/-- The run after an effect. -/
def apply (r : Run) : Effect → Run
  | .start d =>
      { r with
        task := { r.task with
          nextGeneration := r.task.nextGeneration + 1
          outstanding := some d.generation }
        started := r.started ++ [d] }
  | .abort _ => r.abort
  | .edit question => r.ask question
  | .settle d verdict =>
      { r with
        task := { r.task with
          outstanding := none
          answer := if r.task.revision = d.revision then verdict else .unknown }
        completed := r.completed ++ [d.generation] }
  | .idle => r

/-- The effects that are possible in a run. -/
inductive Enabled (r : Run) : Effect → Prop
  /-- A dispatch takes the next generation, and the question as it is now. -/
  | start (program : String) (free : r.task.outstanding = none) :
      Enabled r (.start
        ⟨r.task.nextGeneration, r.task.revision, program, r.task.question.request⟩)
  | abort {generation : UInt64} (held : r.task.outstanding = some generation) :
      Enabled r (.abort generation)
  | edit (question : Question) : Enabled r (.edit question)
  /-- Only the outstanding dispatch settles. -/
  | settle {d : Dispatch} (verdict : Verdict) (started : d ∈ r.started)
      (held : r.task.outstanding = some d.generation) : Enabled r (.settle d verdict)
  | idle : Enabled r .idle

/-! ### One step -/

/-- Where nothing is outstanding there is nothing to give up. -/
theorem abort_of_outstanding_eq_none {r : Run} (h : r.task.outstanding = none) : r.abort = r := by
  cases r with
  | mk task started completed =>
      cases task
      simp only at h
      subst h
      rfl

/-- Aborting and dropping come to the same, whether or not there is a dispatch to give up. -/
theorem abort_spec (r : Run) :
    r.Enabled (r.effect .abort) ∧ r.abort = r.apply (r.effect .abort) := by
  simp only [effect]
  split
  · exact ⟨.abort ‹_›, rfl⟩
  · exact ⟨.idle, abort_of_outstanding_eq_none ‹_›⟩

/-- An effect that a run has is possible there, and says what the step does. -/
theorem step_spec (r : Run) (e : Event) :
    r.Enabled (r.effect e) ∧ r.step e = r.apply (r.effect e) := by
  cases e with
  | verify hosted program =>
      simp only [effect, step, verify, Task.verify_eq]
      by_cases hosted : hosted = false
      · simp only [if_pos hosted]
        exact ⟨.idle, rfl⟩
      · by_cases free : r.task.outstanding = none
        · simp only [if_neg hosted, if_pos free]
          exact ⟨.start program free, rfl⟩
        · simp only [if_neg hosted, if_neg free]
          exact ⟨.idle, rfl⟩
  | abort => exact r.abort_spec
  | drop => exact r.abort_spec
  | ask question => exact ⟨.edit question, rfl⟩
  | edit e =>
      simp only [effect, step, edit]
      cases h : r.task.edit e with
      | error error => exact ⟨.idle, rfl⟩
      | ok task =>
          obtain ⟨question, rfl⟩ := Task.exists_ask_of_edit h
          exact ⟨.edit _, rfl⟩
  | report generation verdict =>
      simp only [effect, step]
      cases h : r.dispatch? generation with
      | none => exact ⟨.idle, rfl⟩
      | some d =>
          by_cases held : r.task.outstanding = some d.generation
          · simp only [report, Task.settle?_eq, if_pos held]
            exact ⟨.settle verdict (List.mem_of_find?_eq_some h) held, rfl⟩
          · simp only [report, Task.settle?_eq, if_neg held]
            exact ⟨.idle, rfl⟩

theorem enabled_effect (r : Run) (e : Event) : r.Enabled (r.effect e) := (r.step_spec e).1

/-- Dispatches are only ever added to those that have been started. -/
theorem started_apply (r : Run) (x : Effect) :
    (r.apply x).started = r.started ++ [x].filterMap Effect.started? := by
  cases x <;> simp [apply, abort, ask, Effect.started?]

theorem length_started_le_apply (r : Run) (x : Effect) :
    r.started.length ≤ (r.apply x).started.length := by
  rw [started_apply, List.length_append]
  exact Nat.le_add_right _ _

/-- Generations are only ever added to those that have completed. -/
theorem completed_apply (r : Run) (x : Effect) :
    (r.apply x).completed = r.completed ++ [x].filterMap Effect.settled? := by
  cases x <;> simp [apply, abort, ask, Effect.settled?]

theorem step_eq_apply (r : Run) (e : Event) : r.step e = r.apply (r.effect e) := (r.step_spec e).2

/-! ### A whole run -/

theorem log_append (r : Run) (events later : List Event) :
    r.log (events ++ later) = r.log events ++ (events.foldl step r).log later := by
  induction events generalizing r with
  | nil => rfl
  | cons e events ih => simp only [List.cons_append, log, List.foldl_cons, ih]

theorem ofEvents_append_singleton (id : Nat) (question : Question) (events : List Event)
    (e : Event) : ofEvents id question (events ++ [e]) = (ofEvents id question events).step e := by
  rw [ofEvents, List.foldl_append]
  rfl

/-- What holds of a new task, and is kept by every effect that is possible, holds of every run and
its log. -/
theorem ofEvents_induction {id : Nat} {question : Question} {motive : Run → List Effect → Prop}
    (new : motive (.new id question) [])
    (apply : ∀ {r log x}, r.Enabled x → motive r log → motive (r.apply x) (log ++ [x]))
    (events : List Event) :
    motive (.ofEvents id question events) ((Run.new id question).log events) := by
  induction events using List.reverseRecOn with
  | nil => exact new
  | append_singleton events e ih =>
      have longer : (Run.new id question).log (events ++ [e]) =
          (Run.new id question).log events ++ [(ofEvents id question events).effect e] :=
        log_append _ events [e]
      rw [longer, ofEvents_append_singleton, step_eq_apply]
      exact apply (enabled_effect _ e) ih

end Run

end ProcessLogic
