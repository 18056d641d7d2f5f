import ProcessLogic.Formula.Explorer
import ProcessLogic.Proofs.Formula.Span
import Mathlib.Data.List.Induction

/-!
# What is on display

Markup belongs to the formula it was made of and to the definitions it was made by.  The explorer
keeps the first of the two beside the markup, but not the second: its definitions may be replaced
while a formula is on display, and the markup stays as it is.  So what ties the markup to the rest
of the state is a fact about the past: the definitions that were in force when something was last
put on display.

`Explorer.step_cases` says all that an operation can do to the display, and `Explorer.Quiet` that a
sequence of operations leaves it alone.
-/

namespace ProcessLogic

namespace Explorer

open Formula

variable {defs : Definitions} {e e' : Explorer} {f : Formula}

/-- A formula is on display, with its markup by some definitions. -/
structure Shows (e : Explorer) (defs : Definitions) (g : Formula) : Prop where
  definitions : e.definitions = defs
  current : e.current = some g
  markup : g.markup defs = .ok e.markup

theorem display_of_markup {m : String} (hm : f.markup e.definitions = .ok m) :
    e.display (some f) = .ok { e with current := some f, markup := m } := by
  rw [display, hm]
  rfl

theorem display_of_error {error : FormulaError} (h : f.markup e.definitions = .error error) :
    e.display (some f) = .error error := by
  rw [display, h]
  rfl

theorem shows_of_display (h : e.display (some f) = .ok e') : e'.Shows e.definitions f := by
  obtain ⟨m, hm, h⟩ := exists_of_bind_eq_ok h
  obtain rfl := Except.ok.inj h
  exact ⟨rfl, rfl, hm⟩

/-! ### Operations -/

/-- A call by whoever uses an explorer. -/
inductive Operation where
  | use (definitions : Definitions)
  | listen
  | display (f : Option Formula)
  | select (raw : String)
  | drillDown (raw : String)
deriving Repr

/-- The definitions that an operation brings. -/
def Operation.definitions? : Operation → Option Definitions
  | .use definitions => some definitions
  | .listen | .display _ | .select _ | .drillDown _ => none

/-- The explorer after an operation, whether it succeeds or not. -/
def step (e : Explorer) : Operation → Explorer
  | .use definitions => e.use definitions
  | .listen => e.listen
  | .display f => (e.display f).toOption.getD e
  | .select raw => (e.select raw).2
  | .drillDown raw => (e.drillDown raw).2

/-- The explorer that a sequence of operations makes of a new one. -/
def ofOperations (definitions : Definitions) (ops : List Operation) : Explorer :=
  ops.foldl step (new definitions)

/-- The definitions that were given last, to a new explorer or by an operation. -/
def inForce (definitions : Definitions) (ops : List Operation) : Definitions :=
  (ops.filterMap Operation.definitions?).getLastD definitions

/-- What an operation puts on display: the formula it is given or leads to, or nothing.  An
operation that fails puts nothing there, and neither does one that is not about the display. -/
inductive Puts (e : Explorer) : Operation → Option Formula → Prop
  | display {f : Option Formula} {e' : Explorer} (h : e.display f = .ok e') :
      Puts e (.display f) f
  | drillDown {raw : String} {located : Option Formula}
      (h : (e.drillDown raw).1 = .ok located) : Puts e (.drillDown raw) located

/-- None of the operations puts anything on display or clears it. -/
def Quiet (e : Explorer) : List Operation → Prop
  | [] => True
  | op :: rest => (∀ f, ¬Puts e op f) ∧ (e.step op).Quiet rest

/-! ### One operation -/

/-- What is on display once something has been put there. -/
theorem cases_of_display {f : Option Formula} (h : e.display f = .ok e') :
    (∃ g, f = some g ∧ e'.Shows e.definitions g) ∨
      (f = none ∧ e'.current = none ∧ e'.markup = noMoreMoves) := by
  cases f with
  | some g => exact .inl ⟨g, rfl, shows_of_display h⟩
  | none =>
      obtain rfl := Except.ok.inj h
      exact .inr ⟨rfl, rfl, rfl⟩

theorem definitions_of_display {f : Option Formula} (h : e.display f = .ok e') :
    e'.definitions = e.definitions := by
  cases f with
  | some g => exact (shows_of_display h).definitions
  | none =>
      obtain rfl := Except.ok.inj h
      rfl

/-- A selection at most tells the listener. -/
theorem select_cases (e : Explorer) (raw : String) :
    (∃ located, e.select raw = (.ok located, e.tell located)) ∨
      ∃ error, e.select raw = (.error error, e) := by
  rw [select]
  cases e.locate raw with
  | ok located => exact .inl ⟨located, rfl⟩
  | error error => exact .inr ⟨error, rfl⟩

/-- A click puts what it leads to on display, or it fails and at most tells the listener. -/
theorem drillDown_cases (e : Explorer) (raw : String) :
    (∃ located e', (e.tell located).display located = .ok e' ∧
        e.drillDown raw = (.ok located, e')) ∨
      ∃ error told, e.drillDown raw = (.error error, told) ∧
        told.definitions = e.definitions ∧ told.current = e.current ∧ told.markup = e.markup := by
  rw [drillDown]
  rcases e.select_cases raw with ⟨located, h⟩ | ⟨error, h⟩
  · rw [h]
    cases shown : (e.tell located).display located with
    | ok e' => exact .inl ⟨located, e', shown, by simp only [shown]⟩
    | error error => exact .inr ⟨error, e.tell located, by simp only [shown], rfl, rfl, rfl⟩
  · rw [h]
    exact .inr ⟨error, e, rfl, rfl, rfl, rfl⟩

/-- All that an operation can do.  The definitions change only where it brings others; and it puts a
formula on display, with its markup by the definitions in force, or it clears the display, or it
leaves that as it is. -/
theorem step_cases (e : Explorer) (op : Operation) :
    (e.step op).definitions = op.definitions?.getD e.definitions ∧
      ((∃ f, e.Puts op (some f) ∧ (e.step op).Shows e.definitions f) ∨
        (e.Puts op none ∧ (e.step op).current = none ∧ (e.step op).markup = noMoreMoves) ∨
        ((∀ f, ¬e.Puts op f) ∧ (e.step op).current = e.current ∧
          (e.step op).markup = e.markup)) := by
  cases op with
  | use definitions => exact ⟨rfl, .inr (.inr ⟨by rintro f ⟨⟩, rfl, rfl⟩)⟩
  | listen => exact ⟨rfl, .inr (.inr ⟨by rintro f ⟨⟩, rfl, rfl⟩)⟩
  | display f =>
      rw [step]
      cases shown : e.display f with
      | ok e' =>
          have puts : e.Puts (.display f) f := .display shown
          refine ⟨definitions_of_display shown, ?_⟩
          rcases cases_of_display shown with ⟨g, rfl, hg⟩ | ⟨rfl, cleared⟩
          · exact .inl ⟨g, puts, hg⟩
          · exact .inr (.inl ⟨puts, cleared⟩)
      | error error =>
          refine ⟨rfl, .inr (.inr ⟨fun f puts => ?_, rfl, rfl⟩)⟩
          cases puts with
          | display h =>
              rw [shown] at h
              cases h
  | select raw =>
      rw [step]
      rcases e.select_cases raw with ⟨located, h⟩ | ⟨error, h⟩
      · rw [h]
        exact ⟨rfl, .inr (.inr ⟨by rintro f ⟨⟩, rfl, rfl⟩)⟩
      · rw [h]
        exact ⟨rfl, .inr (.inr ⟨by rintro f ⟨⟩, rfl, rfl⟩)⟩
  | drillDown raw =>
      rw [step]
      rcases e.drillDown_cases raw with
        ⟨located, e', shown, moved⟩ | ⟨error, told, stays, kept, same⟩
      · have puts : e.Puts (.drillDown raw) located := .drillDown (congrArg Prod.fst moved)
        have kept : e'.definitions = (e.tell located).definitions := definitions_of_display shown
        rw [moved]
        refine ⟨kept, ?_⟩
        rcases cases_of_display shown with ⟨g, rfl, hg⟩ | ⟨rfl, cleared⟩
        · exact .inl ⟨g, puts, hg⟩
        · exact .inr (.inl ⟨puts, cleared⟩)
      · rw [stays]
        refine ⟨kept, .inr (.inr ⟨fun f puts => ?_, same⟩)⟩
        cases puts with
        | drillDown h =>
            rw [stays] at h
            cases h

/-! ### Any number of operations -/

theorem ofOperations_append_singleton (defs : Definitions) (ops : List Operation)
    (op : Operation) : ofOperations defs (ops ++ [op]) = (ofOperations defs ops).step op := by
  rw [ofOperations, List.foldl_append]
  rfl

theorem inForce_append_singleton (defs : Definitions) (ops : List Operation) (op : Operation) :
    inForce defs (ops ++ [op]) = op.definitions?.getD (inForce defs ops) := by
  rw [inForce, List.filterMap_append]
  cases h : op.definitions? with
  | none => simp [inForce, h]
  | some later => simp [h]

/-- The definitions are always the ones that were given last. -/
theorem definitions_ofOperations (defs : Definitions) (ops : List Operation) :
    (ofOperations defs ops).definitions = inForce defs ops := by
  induction ops using List.reverseRecOn with
  | nil => rfl
  | append_singleton ops op ih =>
      rw [ofOperations_append_singleton, inForce_append_singleton, (step_cases _ op).1, ih]

theorem quiet_append_singleton {ops : List Operation} {op : Operation} :
    e.Quiet (ops ++ [op]) ↔ e.Quiet ops ∧ ∀ f, ¬(ops.foldl step e).Puts op f := by
  induction ops generalizing e with
  | nil => exact ⟨fun h => ⟨trivial, h.1⟩, fun h => ⟨h.2, trivial⟩⟩
  | cons first ops ih =>
      rw [List.cons_append, Quiet, ih, Quiet, List.foldl_cons, and_assoc]

/-- Nothing is on display, or the formula that was last put there, with the markup that it had by
the definitions in force then. -/
theorem display_ofOperations (defs : Definitions) (ops : List Operation) :
    ((ofOperations defs ops).current = none ∧ (ofOperations defs ops).markup = noMoreMoves) ∨
      ∃ f before op after, ops = before ++ op :: after ∧
        (ofOperations defs before).Puts op (some f) ∧
        ((ofOperations defs before).step op).Quiet after ∧
        (ofOperations defs ops).current = some f ∧
        f.markup (inForce defs before) = .ok (ofOperations defs ops).markup := by
  induction ops using List.reverseRecOn with
  | nil => exact .inl ⟨rfl, rfl⟩
  | append_singleton ops op ih =>
      rw [ofOperations_append_singleton]
      rcases ((ofOperations defs ops).step_cases op).2 with
        ⟨f, puts, shown⟩ | ⟨-, cleared⟩ | ⟨quiet, current, markup⟩
      · refine .inr ⟨f, ops, op, [], rfl, puts, trivial, shown.current, ?_⟩
        rw [← definitions_ofOperations]
        exact shown.markup
      · exact .inl cleared
      · rw [current, markup]
        rcases ih with empty | ⟨f, before, last, after, rfl, puts, since, shown⟩
        · exact .inl empty
        · refine .inr ⟨f, before, last, after ++ [op], ?_, puts, ?_, shown⟩
          · rw [List.append_assoc, List.cons_append]
          · refine quiet_append_singleton.mpr ⟨since, ?_⟩
            rwa [ofOperations, List.foldl_append, List.foldl_cons] at quiet

/-- **The display is what was last put there.**  After any operations, successful or not, there is
nothing on display, or the formula that was last put there, with the markup that it had by the
definitions in force then; the operations since have put nothing on display.  The definitions are
always the ones that were given last. -/
theorem display_faithful (defs : Definitions) (ops : List Operation) :
    let e := ofOperations defs ops
    e.definitions = inForce defs ops ∧
      ((e.current = none ∧ e.markup = noMoreMoves) ∨
        ∃ f before op after, ops = before ++ op :: after ∧
          (ofOperations defs before).Puts op (some f) ∧
          ((ofOperations defs before).step op).Quiet after ∧
          e.current = some f ∧ f.markup (inForce defs before) = .ok e.markup) :=
  ⟨definitions_ofOperations defs ops, display_ofOperations defs ops⟩

/-- A variable stays on display as it was, though its definition is gone and what comes after it is
refused. -/
theorem display_faithful_outlived :
    let x := var ⟨0⟩ "X"
    let defs : Definitions := ⟨[("X", fixed ⟨1⟩ .least "X" x)]⟩
    let ops := [.display (some x), .use .empty, .display (some (var ⟨2⟩ "Y")), .select "none"]
    let e := ofOperations defs ops
    e.definitions = .empty ∧
      ∃ f before op after, ops = before ++ op :: after ∧
        (ofOperations defs before).Puts op (some f) ∧
        ((ofOperations defs before).step op).Quiet after ∧
        e.current = some f ∧ f.markup (inForce defs before) = .ok e.markup := by
  intro x defs ops e
  have shown : e.current = some x := rfl
  obtain ⟨latest, empty | last⟩ := display_faithful defs ops
  · rw [shown] at empty
    cases empty.1
  · exact ⟨latest, last⟩

end Explorer

end ProcessLogic
