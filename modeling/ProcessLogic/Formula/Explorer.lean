import ProcessLogic.Formula.Locate
import ProcessLogic.Formula.Markup

/-!
# Exploring a formula

An explorer shows one formula at a time, and moves to one of its parts when that part is clicked.
It holds the definitions that variables are looked up in, the formula on display with its markup,
and the record of a listener, if one is installed.

## What a failure leaves behind

Markup is made before anything is put on display, so a formula that cannot be shown changes
nothing.  A listener hears of a selection once it has succeeded, whatever becomes of the display
afterwards.
-/

namespace ProcessLogic

/-- A view on one formula, and how it came to be there. -/
structure Explorer where
  definitions : Definitions
  current : Option Formula
  markup : String
  /-- What the listener has heard since it was installed; `none` if there is no listener. -/
  heard : Option (List (Option Formula))
deriving Repr

namespace Explorer

/-- What is shown while there is no formula on display. -/
def noMoreMoves : String := "No more moves"

/-- Nothing on display, and nobody listening. -/
def new (definitions : Definitions) : Explorer := ⟨definitions, none, noMoreMoves, none⟩

/-- Replaces the definitions; what is on display stays as it was made. -/
def use (e : Explorer) (definitions : Definitions) : Explorer := { e with definitions }

/-- Installs a listener, in place of any other. -/
def listen (e : Explorer) : Explorer := { e with heard := some [] }

/-- Puts a formula on display, or clears the display. -/
def display (e : Explorer) : Option Formula → Except FormulaError Explorer
  | none => .ok { e with current := none, markup := noMoreMoves }
  | some f => do
      let markup ← f.markup e.definitions
      return { e with current := some f, markup }

/-- The part of the formula on display that a target leads to. -/
def find (e : Explorer) : Target → Except FormulaError (Option Formula)
  | .leaf => .ok none
  | .node id =>
      match e.current with
      | some f => f.locate e.definitions id
      | none => .ok none

/-- Tells the listener, if there is one, what has been selected. -/
def tell (e : Explorer) (located : Option Formula) : Explorer :=
  { e with heard := e.heard.map (· ++ [located]) }

/-- Reads a selection and finds what it leads to. -/
def locate (e : Explorer) (raw : String) : Except FormulaError (Option Formula) := do
  e.find (← Target.ofSelection raw)

/-- Selects a part of the formula on display; the display does not change. -/
def select (e : Explorer) (raw : String) : Except FormulaError (Option Formula) × Explorer :=
  match e.locate raw with
  | .ok located => (.ok located, e.tell located)
  | .error error => (.error error, e)

/-- Selects a part of the formula on display and puts it on display. -/
def drillDown (e : Explorer) (raw : String) : Except FormulaError (Option Formula) × Explorer :=
  match e.select raw with
  | (.ok located, told) =>
      match told.display located with
      | .ok moved => (.ok located, moved)
      | .error error => (.error error, told)
  | (.error error, told) => (.error error, told)

@[simp] theorem definitions_new (d : Definitions) : (new d).definitions = d := rfl
@[simp] theorem current_new (d : Definitions) : (new d).current = none := rfl
@[simp] theorem markup_new (d : Definitions) : (new d).markup = noMoreMoves := rfl
@[simp] theorem definitions_use (e : Explorer) (d : Definitions) :
    (e.use d).definitions = d := rfl
@[simp] theorem definitions_tell (e : Explorer) (f : Option Formula) :
    (e.tell f).definitions = e.definitions := rfl
@[simp] theorem current_tell (e : Explorer) (f : Option Formula) :
    (e.tell f).current = e.current := rfl
@[simp] theorem markup_tell (e : Explorer) (f : Option Formula) :
    (e.tell f).markup = e.markup := rfl

/-- Clearing the display always succeeds. -/
@[simp] theorem display_none (e : Explorer) :
    e.display none = .ok { e with current := none, markup := noMoreMoves } := rfl

end Explorer

end ProcessLogic
