import ProcessLogic.Proofs.Formula.Response
import ProcessLogic.Proofs.Formula.Selection

/-!
# What a listener hears

Three things can go wrong with a click: its text is no selection, the formula on display is a
variable without a definition, or there is no markup for what was found.  The listener hears of the
selection after the first two and before the third, and markup is made before the display changes.
So whatever goes wrong, the display stays as it is; and the listener has heard of all that was
found, shown or not.

`Explorer.selections` is what a sequence of operations finds, and `Explorer.heard_foldl_step` says
that this is what a listener hears of it.
-/

namespace ProcessLogic

namespace Explorer

open Formula

variable {defs : Definitions} {e e' : Explorer} {raw : String} {f located : Option Formula}
  {error : FormulaError} {op : Operation} {ops : List Operation}

/-- An operation fails. -/
inductive Refuses (e : Explorer) : Operation → FormulaError → Prop
  | display {f : Option Formula} {error : FormulaError} (h : e.display f = .error error) :
      Refuses e (.display f) error
  | select {raw : String} {error : FormulaError} (h : (e.select raw).1 = .error error) :
      Refuses e (.select raw) error
  | drillDown {raw : String} {error : FormulaError} (h : (e.drillDown raw).1 = .error error) :
      Refuses e (.drillDown raw) error

/-- What an operation finds, if it selects something and the selection succeeds.  A click on what is
on display selects first, whatever becomes of the display afterwards. -/
def selected? (e : Explorer) : Operation → Option (Option Formula)
  | .select raw | .drillDown raw => (e.select raw).1.toOption
  | .use _ | .listen | .display _ => none

/-- What a sequence of operations finds, in order. -/
def selections (e : Explorer) : List Operation → List (Option Formula)
  | [] => []
  | op :: ops => (e.selected? op).toList ++ (e.step op).selections ops

/-! ### Selecting -/

theorem select_of_ok (h : (e.select raw).1 = .ok located) :
    e.select raw = (.ok located, e.tell located) := by
  rcases e.select_cases raw with ⟨found, selected⟩ | ⟨error, selected⟩
  · rw [selected] at h
    obtain rfl := Except.ok.inj h
    exact selected
  · rw [selected] at h
    cases h

theorem select_of_error (h : (e.select raw).1 = .error error) :
    e.select raw = (.error error, e) := by
  rcases e.select_cases raw with ⟨found, selected⟩ | ⟨other, selected⟩
  · rw [selected] at h
    cases h
  · rw [selected] at h
    obtain rfl := Except.error.inj h
    exact selected

/-- A selection fails if its text is no selection, or if the formula on display is a variable
without a definition. -/
theorem fst_select_eq_error_iff :
    (e.select raw).1 = .error error ↔
      (error = .malformedSelection raw ∧ ∀ target, Target.ofSelection raw ≠ .ok target) ∨
        ∃ id i x, Target.ofSelection raw = .ok (.node id) ∧ e.current = some (var i x) ∧
          e.definitions.find? x = none ∧ error = .undefinedVariable x := by
  rw [fst_select, locate, ← Target.ofSelection_eq_error_iff]
  cases read : Target.ofSelection raw with
  | error other =>
      change Except.error other = Except.error error ↔ _
      rw [Except.error.injEq, Except.error.injEq]
      constructor
      · exact .inl
      · rintro (h | ⟨id, i, x, h, -⟩)
        · exact h
        · cases h
  | ok target =>
      change e.find target = _ ↔ _
      cases target with
      | leaf =>
          constructor
          · intro h
            cases h
          · rintro (h | ⟨id, i, x, h, -⟩) <;> cases h
      | node id =>
          rw [find]
          cases current : e.current with
          | none =>
              constructor
              · intro h
                cases h
              · rintro (h | ⟨-, i, x, -, h, -⟩) <;> cases h
          | some g =>
              dsimp only
              rw [locate_eq_error_iff]
              constructor
              · rintro ⟨i, x, rfl, undefined, rfl⟩
                exact .inr ⟨id, i, x, rfl, rfl, undefined, rfl⟩
              · rintro (h | ⟨-, i, x, -, same, undefined, rfl⟩)
                · cases h
                · exact ⟨i, x, Option.some.inj same, undefined, rfl⟩

/-! ### Selecting and displaying -/

theorem heard_of_display (h : e.display f = .ok e') : e'.heard = e.heard := by
  cases f with
  | some g =>
      obtain ⟨m, -, h⟩ := exists_of_bind_eq_ok h
      obtain rfl := Except.ok.inj h
      rfl
  | none =>
      obtain rfl := Except.ok.inj h
      rfl

theorem step_display_of_ok (h : e.display f = .ok e') : e.step (.display f) = e' := by
  rw [step, h]
  rfl

theorem step_display_of_error (h : e.display f = .error error) : e.step (.display f) = e := by
  rw [step, h]
  rfl

theorem drillDown_of_unselected (h : (e.select raw).1 = .error error) :
    e.drillDown raw = (.error error, e) := by
  rw [drillDown, select_of_error h]

theorem drillDown_of_shown (h : (e.select raw).1 = .ok located)
    (shown : (e.tell located).display located = .ok e') :
    e.drillDown raw = (.ok located, e') := by
  rw [drillDown, select_of_ok h]
  dsimp only
  rw [shown]

theorem drillDown_of_unshown (h : (e.select raw).1 = .ok located)
    (refused : (e.tell located).display located = .error error) :
    e.drillDown raw = (.error error, e.tell located) := by
  rw [drillDown, select_of_ok h]
  dsimp only
  rw [refused]

/-- The state after a click is the one after the selection and, if that succeeds, the display of
what was found. -/
theorem step_drillDown (h : (e.select raw).1 = .ok located) :
    e.step (.drillDown raw) = (e.step (.select raw)).step (.display located) := by
  have told : e.step (.select raw) = e.tell located := congrArg Prod.snd (select_of_ok h)
  rw [told]
  change (e.drillDown raw).2 = _
  cases shown : (e.tell located).display located with
  | ok e' => rw [drillDown_of_shown h shown, step_display_of_ok shown]
  | error error => rw [drillDown_of_unshown h shown, step_display_of_error shown]

/-- An operation that fails leaves the display and the definitions as they are. -/
theorem step_of_refuses (h : e.Refuses op error) :
    (e.step op).current = e.current ∧ (e.step op).markup = e.markup ∧
      (e.step op).definitions = e.definitions := by
  cases h with
  | display h =>
      rw [step_display_of_error h]
      exact ⟨rfl, rfl, rfl⟩
  | select h =>
      rw [step, select_of_error h]
      exact ⟨rfl, rfl, rfl⟩
  | drillDown h =>
      rw [step]
      rcases e.drillDown_cases _ with ⟨located, e', -, moved⟩ | ⟨_, told, stays, definitions, same⟩
      · rw [moved] at h
        cases h
      · rw [stays]
        exact ⟨same.1, same.2, definitions⟩

/-! ### Hearing -/

theorem heard_step_display (e : Explorer) (f : Option Formula) :
    (e.step (.display f)).heard = e.heard := by
  cases shown : e.display f with
  | ok e' => rw [step_display_of_ok shown, heard_of_display shown]
  | error error => rw [step_display_of_error shown]

theorem heard_step_select (e : Explorer) (raw : String) :
    (e.step (.select raw)).heard = e.heard.map (· ++ (e.selected? (.select raw)).toList) := by
  rw [step, selected?]
  rcases e.select_cases raw with ⟨located, h⟩ | ⟨error, h⟩
  · rw [h]
    rfl
  · rw [h]
    simp [Except.toOption]

/-- A listener hears what an operation finds, and nothing else. -/
theorem heard_step (h : op ≠ .listen) :
    (e.step op).heard = e.heard.map (· ++ (e.selected? op).toList) := by
  cases op with
  | use definitions => simp [step, use, selected?]
  | listen => exact absurd rfl h
  | display f => rw [heard_step_display]; simp [selected?]
  | select raw => exact heard_step_select e raw
  | drillDown raw =>
      have same : e.selected? (.drillDown raw) = e.selected? (.select raw) := rfl
      rw [same]
      cases h : (e.select raw).1 with
      | ok located => rw [step_drillDown h, heard_step_display, heard_step_select]
      | error error =>
          rw [← heard_step_select, step, step, drillDown_of_unselected h, select_of_error h]

/-- While it is not replaced, a listener hears what operations find, in order. -/
theorem heard_foldl_step (e : Explorer) (h : .listen ∉ ops) :
    (ops.foldl step e).heard = e.heard.map (· ++ e.selections ops) := by
  induction ops generalizing e with
  | nil => simp [selections]
  | cons op ops ih =>
      have same : op ≠ .listen := fun same => h (same ▸ List.mem_cons_self)
      rw [List.foldl_cons, ih _ fun later => h (List.mem_cons_of_mem op later), heard_step same,
        Option.map_map, selections]
      simp only [Function.comp_def, List.append_assoc]

/-- **A failure changes nothing on display, and what is found is heard once.**  After any
operations:

* An operation that fails leaves the display and the definitions as they are.
* A selection that succeeds is told to the listener, once and as it is returned.  One that fails is
  not told; it fails if its text is no selection or if the formula on display is a variable without
  a definition.  Displaying a formula tells nothing.
* A click on what is on display is a selection and, if that succeeds, the display of what it found:
  it returns and fails as they do, and leaves the same state.  If the display fails, the listener
  has heard of the selection all the same, and otherwise nothing has changed.

So a listener has heard what has been found since it was installed, in order. -/
theorem selections_heard (defs : Definitions) (ops : List Operation) :
    let e := ofOperations defs ops
    (∀ op error, e.Refuses op error →
      (e.step op).current = e.current ∧ (e.step op).markup = e.markup ∧
        (e.step op).definitions = e.definitions) ∧
    (∀ raw located, (e.select raw).1 = .ok located →
      (e.step (.select raw)).heard = e.heard.map (· ++ [located])) ∧
    (∀ raw error, (e.select raw).1 = .error error → (e.step (.select raw)).heard = e.heard) ∧
    (∀ raw error, (e.select raw).1 = .error error ↔
      (error = .malformedSelection raw ∧ ∀ target, Target.ofSelection raw ≠ .ok target) ∨
        ∃ id i x, Target.ofSelection raw = .ok (.node id) ∧ e.current = some (var i x) ∧
          e.definitions.find? x = none ∧ error = .undefinedVariable x) ∧
    (∀ f, (e.step (.display f)).heard = e.heard) ∧
    (∀ raw error, (e.select raw).1 = .error error →
      (e.drillDown raw).1 = .error error ∧
        e.step (.drillDown raw) = e.step (.select raw)) ∧
    (∀ raw located, (e.select raw).1 = .ok located →
      let told := e.step (.select raw)
      e.step (.drillDown raw) = told.step (.display located) ∧
        (∀ e', told.display located = .ok e' → (e.drillDown raw).1 = .ok located) ∧
        (∀ error, told.display located = .error error →
          (e.drillDown raw).1 = .error error ∧ e.step (.drillDown raw) = e.tell located)) ∧
    (∀ before after, ops = before ++ .listen :: after → .listen ∉ after →
      e.heard = some ((ofOperations defs (before ++ [.listen])).selections after)) ∧
    (.listen ∉ ops → e.heard = none) := by
  intro e
  refine ⟨fun op error h => step_of_refuses h, fun raw located h => ?_, fun raw error h => ?_,
    fun raw error => fst_select_eq_error_iff, e.heard_step_display, fun raw error h => ?_,
    fun raw located h => ?click, fun before after split since => ?_, fun never => ?_⟩
  case click =>
    intro told
    have told_eq : told = e.tell located := congrArg Prod.snd (select_of_ok h)
    refine ⟨step_drillDown h, fun e' shown => ?_, fun error refused => ?_⟩
    · rw [drillDown_of_shown h (told_eq ▸ shown)]
    · have clicked := drillDown_of_unshown h (told_eq ▸ refused)
      exact ⟨congrArg Prod.fst clicked, congrArg Prod.snd clicked⟩
  · rw [heard_step_select, selected?, h]
    rfl
  · rw [step, select_of_error h]
  · rw [step, step, drillDown_of_unselected h, select_of_error h]
    exact ⟨rfl, rfl⟩
  · have whole : e = after.foldl step (ofOperations defs (before ++ [.listen])) := by
      rw [ofOperations, ← List.foldl_append, List.append_assoc]
      exact congrArg (ofOperations defs) split
    have fresh : (ofOperations defs (before ++ [.listen])).heard = some [] := by
      rw [ofOperations_append_singleton]
      rfl
    rw [whole, heard_foldl_step _ since, fresh]
    rfl
  · change (ops.foldl step (new defs)).heard = none
    rw [heard_foldl_step _ never]
    rfl

/-- A click on a variable finds the body of its definition, for which there is no markup: the
listener hears of the body once, while the variable stays on display.  It does not hear of a text
that is no selection, and it hears that a click on a leaf finds nothing. -/
theorem selections_heard_unshown :
    let y := var ⟨0⟩ "Y"
    let x := var ⟨2⟩ "X"
    let defs : Definitions := ⟨[("X", fixed ⟨1⟩ .least "X" y)]⟩
    let ops := [.listen, .display (some x)]
    let e := ofOperations defs ops
    e.Refuses (.drillDown "0") (.undefinedVariable "Y") ∧
      (e.step (.drillDown "0")).current = some x ∧
      (e.step (.drillDown "0")).heard = some [some y] ∧
      (ofOperations defs (ops ++ [.select "X", .drillDown "0", .select "-1"])).heard =
        some [some y, none] := by
  intro y x defs ops e
  have found : (e.select "0").1 = .ok (some y) := rfl
  obtain ⟨refused, -, -, -, -, -, clicked, -⟩ := selections_heard defs ops
  obtain ⟨-, -, unshown⟩ := clicked "0" _ found
  obtain ⟨fails, told⟩ := unshown (.undefinedVariable "Y") rfl
  have fails' : e.Refuses (.drillDown "0") (.undefinedVariable "Y") := .drillDown fails
  have last := selections_heard defs (ops ++ [.select "X", .drillDown "0", .select "-1"])
  obtain ⟨-, -, -, -, -, -, -, run, -⟩ := last
  refine ⟨fails', (refused _ _ fails').1, congrArg heard told, ?_⟩
  exact run [] [.display (some x), .select "X", .drillDown "0", .select "-1"] rfl (by simp)

end Explorer

end ProcessLogic
