import ProcessLogic.Proofs.Task.Accounting

/-!
# Reports of dispatches that were given up

A dispatch that has been given up may still report, at any time: before the next one is started,
while that is outstanding, or after it has settled.  Two sequences of events are `Run.Alike` if they
differ in nothing but such stray reports.  To the owner of the task they are the same: every call
has the same result, and the answer and the completions announced are the same after every step
that both have.

What carries this is that a generation is not handed out again: one that has been given up is not
the outstanding one, now or later, so its report is not heard.  Generations are words, so this holds
for the first `2 ^ 64` dispatches.
-/

namespace ProcessLogic

namespace Run

/-- Two sequences of events that agree but for reports of dispatches that were given up, each of
them in its own run.  Such reports may come at any time, in any order and with any verdict. -/
inductive Alike (start : Run) : List Event → List Event → Prop
  | nil : Alike start [] []
  /-- A step that both have. -/
  | common {es fs : List Event} (e : Event) (h : Alike start es fs) :
      Alike start (es ++ [e]) (fs ++ [e])
  | left {es fs : List Event} {generation : UInt64} (verdict : Verdict)
      (gone : .abort generation ∈ start.log es) (h : Alike start es fs) :
      Alike start (es ++ [.report generation verdict]) fs
  | right {es fs : List Event} {generation : UInt64} (verdict : Verdict)
      (gone : .abort generation ∈ start.log fs) (h : Alike start es fs) :
      Alike start es (fs ++ [.report generation verdict])

/-- What a call gives back to the owner.  Only verifications and edits can be refused. -/
def respond (r : Run) : Event → Except TaskError Unit
  | .verify hosted program => (r.verify hosted program).map fun _ ↦ ()
  | .edit e => (r.edit e).map fun _ ↦ ()
  | .abort | .drop | .ask _ | .report _ _ => .ok ()

variable {r : Run} {log : List Effect}

/-- A generation that has been given up is not the outstanding one. -/
theorem Accounted.outstanding_ne_of_aborted (h : Accounted r log)
    (few : r.started.length ≤ UInt64.size) {generation : UInt64} (gone : .abort generation ∈ log) :
    r.task.outstanding ≠ some generation := by
  intro held
  exact (h.not_mem_of_outstanding few held).2 (Effect.mem_aborted_iff.mpr gone)

/-- The report of a dispatch that is not the outstanding one changes nothing. -/
theorem report_of_outstanding_ne {d : Dispatch} (h : r.task.outstanding ≠ some d.generation)
    (verdict : Verdict) : r.report d verdict = r := by
  rw [report, Task.settle?_eq, if_neg h]

/-- The report of a dispatch that was given up changes nothing. -/
theorem Accounted.step_report_of_aborted (h : Accounted r log)
    (few : r.started.length ≤ UInt64.size) {generation : UInt64} (gone : .abort generation ∈ log)
    (verdict : Verdict) :
    r.step (.report generation verdict) = r := by
  rw [step]
  cases found : r.dispatch? generation with
  | none => rfl
  | some d =>
      have own : d.generation = generation := by simpa using List.find?_some found
      exact report_of_outstanding_ne (own ▸ h.outstanding_ne_of_aborted few gone) verdict

/-- Before an event no more dispatches had been started than after it. -/
theorem length_started_le_of_append {id : Nat} {question : Question} {events : List Event}
    {e : Event} {n : Nat} (h : (ofEvents id question (events ++ [e])).started.length ≤ n) :
    (ofEvents id question events).started.length ≤ n := by
  rw [ofEvents_append_singleton, step_eq_apply] at h
  exact Nat.le_trans (length_started_le_apply _ _) h

/-- Stray reports leave no trace in a run.  The induction is on how the two sequences are alike, and
every report that only one of them has is one that changes nothing. -/
theorem Alike.ofEvents_eq {id : Nat} {question : Question} {es fs : List Event}
    (h : Alike (.new id question) es fs)
    (few : (ofEvents id question es).started.length ≤ UInt64.size) :
    ofEvents id question es = ofEvents id question fs := by
  induction h with
  | nil => rfl
  | @common es fs e _ ih =>
      have same := ih (length_started_le_of_append few)
      rw [ofEvents_append_singleton, ofEvents_append_singleton, same]
  | @left es fs generation verdict gone _ ih =>
      have earlier := length_started_le_of_append few
      rw [ofEvents_append_singleton,
        (Accounted.ofEvents id question es).step_report_of_aborted earlier gone, ih earlier]
  | @right es fs generation verdict gone _ ih =>
      have same := ih few
      rw [same] at few
      rw [ofEvents_append_singleton,
        (Accounted.ofEvents id question fs).step_report_of_aborted few gone, same]

/-- **Dispatches that were given up are inert.**  Take two runs with the same steps, except that
dispatches already given up report at other times, in another order, with other verdicts, or not at
all; and let there be no more dispatches than generations.  Then any further step that both have gives the same result in both, and after it the answer is
the same, a dispatch is outstanding in both or in neither, and the same completions have been
announced, in the same order. -/
theorem aborted_inert (id : Nat) (question : Question) {es fs : List Event}
    (alike : Alike (.new id question) es fs)
    (few : (ofEvents id question es).started.length ≤ UInt64.size) (e : Event) :
    let r := ofEvents id question es
    let s := ofEvents id question fs
    r.respond e = s.respond e ∧
      (r.step e).task.answer = (s.step e).task.answer ∧
      (r.step e).task.isVerifying = (s.step e).task.isVerifying ∧
      (r.step e).completed = (s.step e).completed := by
  intro r s
  have same : r = s := alike.ofEvents_eq few
  rw [same]
  exact ⟨rfl, rfl, rfl, rfl⟩

/-- In one run the dispatch that was given up reports before its successor is started, in the other
while that is outstanding and with the opposite verdict. -/
theorem aborted_inert_successor :
    let early : List Event :=
      [.verify true "", .abort, .report 0 .satisfied, .verify true ""]
    let late : List Event :=
      [.verify true "", .abort, .verify true "", .report 0 .unsatisfied]
    let question := Question.weakBisimulation "P" "Q"
    let settled := Event.report 1 .satisfied
    (Alike (.new 0 question) early late ∧
      (ofEvents 0 question early).started.length ≤ UInt64.size) ∧
      ((ofEvents 0 question early).step settled).task.answer =
        ((ofEvents 0 question late).step settled).task.answer ∧
      ((ofEvents 0 question late).step settled).task.answer = .satisfied := by
  intro early late question settled
  have aborted : Alike (.new 0 question) [.verify true "", .abort] [.verify true "", .abort] :=
    .common .abort (.common (.verify true "") .nil)
  have alike : Alike (.new 0 question) early late :=
    .right .unsatisfied (by decide) <| .common (.verify true "") <|
      .left .satisfied (by decide) aborted
  have few : (ofEvents 0 question early).started.length ≤ UInt64.size := by decide
  exact ⟨⟨alike, few⟩, (aborted_inert 0 question alike few settled).2.1, rfl⟩

end Run

end ProcessLogic
