import ProcessLogic.Proofs.Counter
import ProcessLogic.Proofs.Task.Effect
import Mathlib.Data.List.Perm.Basic

/-!
# What becomes of dispatches

Every dispatch that has been started is in one of three places: its completion has been announced,
it has been given up, or it is the outstanding one.  Every effect moves one generation at most from
one place to another, and generations are handed out in order.  `Run.Accounted` says this of a run
and its log, as a permutation of the generations handed out so far, and that the counts balance is
read off from it.

Generations are words.  For the first `2 ^ 64` dispatches none of them is handed out twice, and so
long no dispatch is in two places: a completion is announced once at most, and never after the
dispatch was given up.
-/

namespace ProcessLogic

namespace Run

/-- The dispatches of a run, accounted for by its log. -/
structure Accounted (r : Run) (log : List Effect) : Prop where
  started : r.started = log.filterMap Effect.started?
  completed : r.completed = log.filterMap Effect.settled?
  next : r.task.nextGeneration = UInt64.ofNat r.started.length
  numbered : r.started.map Dispatch.generation = (List.range r.started.length).map UInt64.ofNat
  balanced : (r.completed ++ log.filterMap Effect.aborted? ++ r.task.outstanding.toList).Perm
    (r.started.map Dispatch.generation)

namespace Accounted

variable {r : Run} {log : List Effect} {x : Effect}

theorem new (id : Nat) (question : Question) : Accounted (.new id question) [] :=
  ⟨rfl, rfl, rfl, rfl, .refl _⟩

/-- Every effect moves one generation at most: from the supply to the outstanding one, or from
there to those that have completed or have been given up. -/
theorem apply (enabled : r.Enabled x) (h : Accounted r log) :
    Accounted (r.apply x) (log ++ [x]) := by
  obtain ⟨started, completed, next, numbered, balanced⟩ := h
  refine ⟨?_, ?_, ?_, ?_, ?_⟩
  · rw [started_apply, started, List.filterMap_append]
  · rw [completed_apply, completed, List.filterMap_append]
  · cases enabled with
    | start program free => simp [Run.apply, next, word_succ]
    | _ => exact next
  · cases enabled with
    | start program free => simp [Run.apply, next, numbered, List.range_succ]
    | _ => exact numbered
  · rw [List.filterMap_append]
    cases enabled with
    | start program free =>
        rw [free] at balanced
        simpa [Run.apply, Effect.aborted?, List.filterMap_cons] using balanced.append_right _
    | abort held =>
        rw [held] at balanced
        simpa [Run.apply, abort, Task.abort, Effect.aborted?] using balanced
    | edit question =>
        simpa [Run.apply, ask, Task.ask, Effect.aborted?, List.filterMap_cons] using balanced
    | @settle d verdict _ held =>
        -- the generation goes from behind those that were given up to its place in front of them
        have moved : ([d.generation] ++ log.filterMap Effect.aborted?).Perm
            (log.filterMap Effect.aborted? ++ [d.generation]) := List.perm_append_comm
        rw [held, List.append_assoc] at balanced
        simpa [Run.apply, Effect.aborted?, List.filterMap_cons] using
          (moved.append_left r.completed).trans balanced
    | idle => simpa [Run.apply, Effect.aborted?, List.filterMap_cons] using balanced

/-- The dispatches of every run are accounted for by its log. -/
theorem ofEvents (id : Nat) (question : Question) (events : List Event) :
    Accounted (.ofEvents id question events) ((Run.new id question).log events) :=
  ofEvents_induction (.new id question) .apply events

theorem length_started (h : Accounted r log) :
    r.started.length =
      r.calls + (log.filterMap Effect.aborted?).length + r.task.outstanding.toList.length := by
  have places := h.balanced.length_eq
  rw [List.length_append, List.length_append, List.length_map] at places
  rw [← places, calls]

/-- Every generation that has been handed out is in one of the three places. -/
theorem generation_mem (h : Accounted r log) {d : Dispatch} (hd : d ∈ r.started) :
    d.generation ∈ r.completed ∨ d.generation ∈ log.filterMap Effect.aborted? ∨
      r.task.outstanding = some d.generation := by
  have place := h.balanced.mem_iff.mpr (List.mem_map_of_mem hd)
  rw [List.append_assoc, List.mem_append, List.mem_append, Option.mem_toList] at place
  exact place

/-- The outstanding generation is that of a dispatch. -/
theorem exists_started (h : Accounted r log) {generation : UInt64}
    (held : r.task.outstanding = some generation) :
    ∃ d ∈ r.started, d.generation = generation :=
  List.mem_map.mp (h.balanced.mem_iff.mp (List.mem_append_right _ (Option.mem_toList.mpr held)))

/-- The outstanding dispatch settles the task when it reports. -/
theorem step_report_of_outstanding (h : Accounted r log) {generation : UInt64}
    (held : r.task.outstanding = some generation) (verdict : Verdict) :
    ∃ d ∈ r.started, d.generation = generation ∧
      r.step (.report generation verdict) = r.apply (.settle d verdict) := by
  cases found : r.dispatch? generation with
  | none =>
      obtain ⟨d, hd, own⟩ := h.exists_started held
      exact absurd own (by simpa using List.find?_eq_none.mp found d hd)
  | some d =>
      have own : d.generation = generation := by simpa using List.find?_some found
      have settles : r.effect (.report generation verdict) = .settle d verdict := by
        simp [effect, found, Task.settle?_eq, held, own]
      exact ⟨d, List.mem_of_find?_eq_some found, own, settles ▸ r.step_eq_apply _⟩

section Few

variable (h : Accounted r log) (few : r.started.length ≤ UInt64.size)

include h few

theorem nodup_generations : (r.started.map Dispatch.generation).Nodup := by
  rw [h.numbered]
  exact nodup_words few

/-- No generation is in two places, or in one place twice. -/
theorem nodup :
    (r.completed ++ log.filterMap Effect.aborted? ++ r.task.outstanding.toList).Nodup :=
  h.balanced.nodup_iff.mpr (h.nodup_generations few)

/-- The outstanding dispatch has neither completed nor been given up. -/
theorem not_mem_of_outstanding {generation : UInt64}
    (held : r.task.outstanding = some generation) :
    generation ∉ r.completed ∧ generation ∉ log.filterMap Effect.aborted? := by
  have out : generation ∈ r.task.outstanding.toList := Option.mem_toList.mpr held
  have apart := (List.nodup_append.mp (h.nodup few)).2.2
  refine ⟨fun done ↦ ?_, fun gone ↦ ?_⟩
  · exact apart _ (List.mem_append_left _ done) _ out rfl
  · exact apart _ (List.mem_append_right _ gone) _ out rfl

theorem outstanding_eq_none_iff :
    r.task.outstanding = none ↔
      ∀ d ∈ r.started,
        d.generation ∈ r.completed ∨ d.generation ∈ log.filterMap Effect.aborted? := by
  constructor
  · intro free d hd
    rcases h.generation_mem hd with done | gone | held
    · exact .inl done
    · exact .inr gone
    · rw [free] at held
      cases held
  · intro ended
    by_contra busy
    obtain ⟨generation, held⟩ := Option.ne_none_iff_exists'.mp busy
    obtain ⟨d, hd, rfl⟩ := h.exists_started held
    obtain ⟨notDone, notGone⟩ := h.not_mem_of_outstanding few held
    rcases ended d hd with done | gone
    · exact notDone done
    · exact notGone gone

end Few

end Accounted

/-- A verification that can be run goes through exactly while nothing is outstanding. -/
theorem verify_ok_iff (r : Run) (program : String) :
    (∃ r', r.verify true program = .ok r') ↔ r.task.outstanding = none := by
  rw [verify, Task.verify_eq]
  by_cases free : r.task.outstanding = none <;> simp [free]

theorem verify_error_iff (r : Run) (hosted : Bool) (program : String) (error : TaskError) :
    r.verify hosted program = .error error ↔
      hosted = false ∧ error = .noRuntime ∨
        hosted = true ∧ r.task.isVerifying = true ∧ error = .alreadyRunning r.task.id := by
  rw [verify, Task.verify_eq]
  cases hosted with
  | false => simp [eq_comm (a := error)]
  | true =>
      cases held : r.task.outstanding <;> simp [Task.isVerifying, held, eq_comm (a := error)]

theorem step_verify_of_error {r : Run} {hosted : Bool} {program : String} {error : TaskError}
    (h : r.verify hosted program = .error error) : r.step (.verify hosted program) = r := by
  rw [step, h]
  rfl

/-- **Single flight.**  In every run a verification that can be run goes through exactly while no
dispatch is outstanding, and one that is refused leaves everything as it was.  The report of the
outstanding dispatch is announced as its completion, and then none is outstanding; the completions
announced are those of the dispatches that settled the task, in this order.  So the dispatches
started are those completed, those given up and the one that may be outstanding.

As long as no more dispatches have been started than there are generations, no two of them have one
generation.  A dispatch completes once at most then, and never after it was given up; and none is
outstanding exactly if every one so far has completed or has been given up. -/
theorem single_flight (id : Nat) (question : Question) (events : List Event) :
    let r := ofEvents id question events
    let log := (Run.new id question).log events
    (∀ program, (∃ r', r.verify true program = .ok r') ↔ r.task.isVerifying = false) ∧
      (∀ hosted program error, r.verify hosted program = .error error →
        (error = .noRuntime ∨ error = .alreadyRunning r.task.id) ∧
          r.step (.verify hosted program) = r) ∧
      (∀ generation verdict, r.task.outstanding = some generation →
        (r.step (.report generation verdict)).completed = r.completed ++ [generation] ∧
          (r.step (.report generation verdict)).task.isVerifying = false) ∧
      r.completed = log.filterMap Effect.settled? ∧
      (log.filterMap Effect.started?).length =
        r.calls + (log.filterMap Effect.aborted?).length + r.task.isVerifying.toNat ∧
      (r.started.length ≤ UInt64.size →
        (r.task.isVerifying = false ↔
          ∀ d ∈ r.started, d.generation ∈ r.completed ∨ .abort d.generation ∈ log) ∧
        (r.started.map Dispatch.generation).Nodup ∧
        ∀ d ∈ r.started, r.completed.count d.generation ≤ 1 ∧
          (.abort d.generation ∈ log → d.generation ∉ r.completed)) := by
  intro r log
  have h : Accounted r log := .ofEvents id question events
  have idle : r.task.isVerifying = false ↔ r.task.outstanding = none := by
    simp [Task.isVerifying]
  refine ⟨fun program ↦ ?free, ?refused, ?reported, h.completed, ?balance,
    fun few ↦ ⟨?ended, h.nodup_generations few, fun d _ ↦ ?once⟩⟩
  case free => rw [verify_ok_iff, idle]
  case refused =>
    intro hosted program error refused
    refine ⟨?_, step_verify_of_error refused⟩
    rcases (verify_error_iff r hosted program error).mp refused with ⟨-, rfl⟩ | ⟨-, -, rfl⟩
    · exact .inl rfl
    · exact .inr rfl
  case reported =>
    intro generation verdict held
    obtain ⟨d, -, rfl, settled⟩ := h.step_report_of_outstanding held verdict
    rw [settled]
    exact ⟨rfl, rfl⟩
  case balance =>
    rw [← h.started, h.length_started, Task.isVerifying]
    cases r.task.outstanding <;> rfl
  case ended =>
    rw [idle, h.outstanding_eq_none_iff few]
    simp only [Effect.mem_aborted_iff]
  case once =>
    obtain ⟨once, -, apart⟩ := List.nodup_append.mp (List.nodup_append.mp (h.nodup few)).1
    refine ⟨List.nodup_iff_count_le_one.mp once d.generation, fun gone done ↦ ?_⟩
    exact apart _ done _ (Effect.mem_aborted_iff.mpr gone) rfl

/-- The first dispatch has completed and the second has been given up.  While the third one is
outstanding a fourth is refused, and the late report of the second is not announced; its own is. -/
theorem single_flight_busy :
    let question := Question.weakBisimulation "P" "Q"
    let events := [.verify true "", .report 0 .satisfied, .verify true "", .abort,
      .verify true "", .report 1 .satisfied]
    let r := ofEvents 0 question events
    (r.verify true "" = .error (.alreadyRunning 0) ∧ r.step (.verify true "") = r) ∧
      (r.task.outstanding = some 2 ∧
        (r.step (.report 2 .unsatisfied)).completed = [0, 2] ∧
        (r.step (.report 2 .unsatisfied)).task.isVerifying = false) ∧
      r.started.length ≤ UInt64.size ∧ .abort 1 ∈ (Run.new 0 question).log events ∧
      1 ∉ r.completed := by
  intro question events r
  obtain ⟨-, refused, reported, -, -, ended⟩ := single_flight 0 question events
  have few : r.started.length ≤ UInt64.size := by decide
  have gone : .abort 1 ∈ (Run.new 0 question).log events := by decide
  obtain ⟨-, -, once⟩ := ended few
  exact ⟨⟨rfl, (refused true "" (.alreadyRunning 0) rfl).2⟩, ⟨rfl, reported 2 .unsatisfied rfl⟩,
    few, gone, (once ⟨1, 0, "", question.request⟩ (by decide)).2 gone⟩

end Run

end ProcessLogic
