import ProcessLogic.Proofs.Task.Effect

/-!
# Edits are all or nothing

An edit changes one field of the question and forgets the answer, or else it is refused and nothing
has happened.  Which of the two it is depends on the kind of the question alone, and no edit changes
the kind.  Nothing but edits changes a question, so what has become of it can be told from its edits:
those that are refused may as well be left out.
-/

namespace ProcessLogic

/-- What a field holds. -/
def Field.Content : Field → Type
  | .semantics => Bool
  | .firstProcess | .secondProcess | .process | .formula => String

/-- What the field is to hold after an edit. -/
def Edit.content : (e : Edit) → e.field.Content
  | .firstProcess name | .secondProcess name | .process name => name
  | .formula text => text
  | .semantics strict => strict

namespace Question

/-- Whether the questions of a kind have a field. -/
def Kind.has : Kind → Field → Bool
  | .strongBisimulation, .firstProcess | .strongBisimulation, .secondProcess => true
  | .weakBisimulation, .firstProcess | .weakBisimulation, .secondProcess => true
  | .hml, .process | .hml, .formula | .hml, .semantics => true
  | _, _ => false

/-- What a field of the question holds. -/
def content? (q : Question) : (field : Field) → Option field.Content
  | .firstProcess => q.firstProcess?
  | .secondProcess => q.secondProcess?
  | .process => q.process?
  | .formula => q.formula?
  | .semantics => q.strict?

variable {q q' : Question} {e : Edit}

/-- Questions of one kind are told apart by what their fields hold. -/
theorem eq_of_content? (kind : q'.kind = q.kind)
    (same : ∀ field, q'.content? field = q.content? field) : q' = q := by
  cases q with
  | strongBisimulation first second =>
      cases q' with
      | strongBisimulation first' second' =>
          rw [Option.some.inj (same .firstProcess), Option.some.inj (same .secondProcess)]
      | _ => cases kind
  | weakBisimulation first second =>
      cases q' with
      | weakBisimulation first' second' =>
          rw [Option.some.inj (same .firstProcess), Option.some.inj (same .secondProcess)]
      | _ => cases kind
  | hml process formula strict =>
      cases q' with
      | hml process' formula' strict' =>
          rw [Option.some.inj (same .process), Option.some.inj (same .formula),
            Option.some.inj (same .semantics)]
      | _ => cases kind

/-- A question is another one with one field changed as an edit says. -/
structure Amended (e : Edit) (q q' : Question) : Prop where
  kind : q'.kind = q.kind
  changed : q'.content? e.field = some e.content
  kept : ∀ field, field ≠ e.field → q'.content? field = q.content? field

/-- There is one way to change a field. -/
theorem Amended.unique {q'' : Question} (h : Amended e q q') (h' : Amended e q q'') :
    q'' = q' := by
  refine eq_of_content? (h'.kind.trans h.kind.symm) fun field => ?_
  by_cases here : field = e.field
  · subst here
    exact h'.changed.trans h.changed.symm
  · exact (h'.kept field here).trans (h.kept field here).symm

theorem amended_of_edit? (h : q.edit? e = some q') : Amended e q q' := by
  cases e <;> cases q <;> cases h
  all_goals
    refine ⟨rfl, rfl, fun field other => ?_⟩
    cases field
    all_goals first
      | rfl
      | exact absurd rfl other

theorem edit?_eq_none_iff : q.edit? e = none ↔ q.kind.has e.field = false := by
  cases e <;> cases q <;> simp [edit?, kind, Kind.has, Edit.field]

/-- A field is changed just if the question has it. -/
theorem exists_edit? (h : q.kind.has e.field = true) : ∃ q', q.edit? e = some q' := by
  rw [← Option.ne_none_iff_exists', Ne, edit?_eq_none_iff, h]
  exact Bool.noConfusion

theorem amended_iff (h : q.edit? e = some q') {q'' : Question} : Amended e q q'' ↔ q'' = q' := by
  constructor
  · exact (amended_of_edit? h).unique
  · rintro rfl
    exact amended_of_edit? h

/-- What an event makes of a question: an edit changes it if it can, and nothing else does. -/
def amend (q : Question) : Event → Question
  | .ask question => question
  | .edit e => (q.edit? e).getD q
  | .verify _ _ | .abort | .drop | .report _ _ => q

/-- To make the edits of a sequence is to make those of fields that the question has. -/
theorem foldlM_edit?_filter (q : Question) (edits : List Edit) :
    (edits.filter fun e => q.kind.has e.field).foldlM (fun q e => q.edit? e) q =
      some ((edits.map Event.edit).foldl amend q) := by
  induction edits generalizing q with
  | nil => rfl
  | cons e edits ih =>
      rw [List.map_cons, List.foldl_cons]
      cases has : q.kind.has e.field with
      | false =>
          rw [List.filter_cons_of_neg (by simp [has]), ih, amend, edit?_eq_none_iff.mpr has]
          rfl
      | true =>
          obtain ⟨q', hq'⟩ := exists_edit? has
          have kind : q'.kind = q.kind := (amended_of_edit? hq').kind
          rw [List.filter_cons, if_pos has, List.foldlM_cons, hq', amend, hq', Option.getD_some,
            ← ih, kind]
          rfl

end Question

namespace Run

variable {r : Run} {e : Edit}

theorem id_ofEvents (id : Nat) (question : Question) (events : List Event) :
    (ofEvents id question events).task.id = id :=
  ofEvents_induction (motive := fun r _ => r.task.id = id) rfl
    (fun {_ _ x} _ h => by cases x <;> exact h) events

/-- A refused edit names the task, the kind of its question and the field. -/
theorem edit_eq_error_iff {error : TaskError} :
    r.edit e = .error error ↔ r.task.question.kind.has e.field = false ∧
      error = .notApplicable r.task.id r.task.question.kind e.field := by
  rw [← Question.edit?_eq_none_iff, edit, Task.edit]
  cases r.task.question.edit? e with
  | none => simp [eq_comm]
  | some question => simp

theorem edit_of_edit? {question : Question} (h : r.task.question.edit? e = some question) :
    r.edit e = .ok (r.ask question) := by
  rw [edit, Task.edit, h]
  rfl

theorem step_edit_of_error {error : TaskError} (h : r.edit e = .error error) :
    r.step (.edit e) = r := by
  rw [step, h]
  rfl

theorem step_edit_of_edit? {question : Question} (h : r.task.question.edit? e = some question) :
    r.step (.edit e) = r.ask question := by
  rw [step, edit_of_edit? h]
  rfl

/-- An event makes of the question of a task what it makes of questions. -/
theorem question_step (r : Run) (event : Event) :
    (r.step event).task.question = r.task.question.amend event := by
  cases event with
  | verify hosted program =>
      rw [step, verify, Task.verify_eq]
      by_cases hosted : hosted = false
      · rw [if_pos hosted]
        rfl
      · rw [if_neg hosted]
        by_cases free : r.task.outstanding = none
        · rw [if_pos free]
          rfl
        · rw [if_neg free]
          rfl
  | edit e =>
      rw [Question.amend]
      cases h : r.task.question.edit? e with
      | none =>
          have refused := edit_eq_error_iff.mpr ⟨Question.edit?_eq_none_iff.mp h, rfl⟩
          rw [step_edit_of_error refused]
          rfl
      | some question =>
          rw [step_edit_of_edit? h]
          rfl
  | report generation verdict =>
      rw [step]
      cases r.dispatch? generation with
      | none => rfl
      | some d =>
          by_cases held : r.task.outstanding = some d.generation
          · simp only [report, Task.settle?_eq, if_pos held]
            rfl
          · simp only [report, Task.settle?_eq, if_neg held]
            rfl
  | _ => rfl

theorem question_foldl_step (r : Run) (events : List Event) :
    (events.foldl step r).task.question = events.foldl Question.amend r.task.question := by
  induction events generalizing r with
  | nil => rfl
  | cons event events ih => rw [List.foldl_cons, List.foldl_cons, ih, question_step]

/-- **Edits are all or nothing.**  In every run an edit is refused exactly if the question has no
such field, the complaint says of which task and kind of question, and nothing changes.  Otherwise
there is one question of the same kind with the new content in this field and the old one in all
others.  The task asks this question then, has no answer and is a revision on; a dispatch that is
outstanding stays so, and nothing else changes.

Over any further events the question is what the edits among them make of it, in their order and
each of them only if it is of a field that the question has. -/
theorem edit_all_or_nothing (id : Nat) (question : Question) (events : List Event) (e : Edit) :
    let r := ofEvents id question events
    (∀ error, r.edit e = .error error ↔ r.task.question.kind.has e.field = false ∧
      error = .notApplicable id r.task.question.kind e.field) ∧
    (∀ error, r.edit e = .error error → r.step (.edit e) = r) ∧
    (r.task.question.kind.has e.field = true → ∃ amended,
      (∀ question, Question.Amended e r.task.question question ↔ question = amended) ∧
      let task := { r.task with
        question := amended
        answer := .unknown
        revision := r.task.revision + 1 }
      r.edit e = .ok { r with task } ∧ r.step (.edit e) = { r with task }) ∧
    (∀ later : List Event, (later.foldl step r).task.question =
      later.foldl Question.amend r.task.question) ∧
    ∀ edits : List Edit,
      (edits.filter fun e => r.task.question.kind.has e.field).foldlM (fun q e => q.edit? e)
        r.task.question = some ((edits.map Event.edit).foldl step r).task.question := by
  intro r
  have named : r.task.id = id := id_ofEvents id question events
  refine ⟨fun error => ?_, fun error => step_edit_of_error, fun has => ?_, r.question_foldl_step,
    fun edits => ?_⟩
  · rw [edit_eq_error_iff, named]
  · obtain ⟨amended, h⟩ := Question.exists_edit? has
    exact ⟨amended, fun _ => Question.amended_iff h, edit_of_edit? h, step_edit_of_edit? h⟩
  · rw [Question.foldlM_edit?_filter, question_foldl_step]

/-- While a dispatch is outstanding, an edit to what the field holds already forgets the answer and
leaves the dispatch; an edit of a field that the question does not have leaves both. -/
theorem edit_all_or_nothing_outstanding :
    let question := Question.hml "P" "tt" false
    let events := [.verify true "", .report 0 .satisfied, .verify true ""]
    let r := ofEvents 7 question events
    r.task.answer = .satisfied ∧
      (r.edit (.firstProcess "Q") = .error (.notApplicable 7 .hml .firstProcess) ∧
        r.step (.edit (.firstProcess "Q")) = r) ∧
      ∃ amended, Question.Amended (.formula "tt") question amended ∧
        (r.step (.edit (.formula "tt"))).task =
          ⟨7, amended, .unknown, 1, 2, some 1⟩ := by
  intro question events r
  obtain ⟨refused, unchanged, -⟩ := edit_all_or_nothing 7 question events (.firstProcess "Q")
  obtain ⟨-, -, applied, -⟩ := edit_all_or_nothing 7 question events (.formula "tt")
  have error : r.edit (.firstProcess "Q") = .error (.notApplicable 7 .hml .firstProcess) :=
    (refused _).mpr ⟨rfl, rfl⟩
  obtain ⟨amended, only, -, step⟩ := applied rfl
  exact ⟨rfl, ⟨error, unchanged _ error⟩, amended, (only amended).mpr rfl, by rw [step]; rfl⟩

end Run

end ProcessLogic
