import ProcessLogic.Formula.Error
import ProcessLogic.Text.Blank
import ProcessLogic.Text.Decimal

/-!
# Click targets

A piece of markup that can be clicked is a *span* with an attribute that says what a click on it
leads to: a node, by its id, or nothing, by the leaf marker.  This module writes spans, reads one
selection, and finds all targets in a piece of markup.

## Finding targets

An attribute is a name, an equals sign and a value between quotation marks, and a value holds no
quotation mark.  Cut at its quotation marks, markup falls into pieces.  A piece that ends in
`data-subformula-id=` is followed by a value, provided that one more quotation mark closes it;
the search goes on behind that mark.  Values that are no selections are passed over.
-/

namespace ProcessLogic

/-- What a click leads to. -/
inductive Target where
  | leaf
  | node (id : FormulaId)
deriving DecidableEq, Repr

namespace Target

/-- The text that stands for a target that leads nowhere. -/
def leafMarker : String := "-1"

def spanClass : String := "hml-subformula"

def idAttribute : String := "data-subformula-id"

/-- A target as it stands in the attribute. -/
def text : Target → String
  | .leaf => leafMarker
  | .node id => .ofList (Decimal.digits id.value.toNat)

/-- Markup that leads to a target when it is clicked. -/
def clickable (target : Target) (inner : String) : String :=
  "<span class=\"" ++ spanClass ++ "\" " ++ idAttribute ++ "=\"" ++ target.text ++ "\">" ++ inner
    ++ "</span>"

/-- Reads a selection: the leaf marker or an id, with blanks around it.  What is refused is
reported as it came in. -/
def ofSelection (raw : String) : Except FormulaError Target :=
  if trim raw.toList = leafMarker.toList then
    .ok .leaf
  else
    match Decimal.word? (trim raw.toList) with
    | some word => .ok (.node ⟨word⟩)
    | none => .error (.malformedSelection raw)

/-- Whether a piece of markup ends where the value of the id attribute begins. -/
def opensValue (piece : List Char) : Bool := (idAttribute ++ "=").toList.isSuffixOf piece

/-- The targets in markup that has been cut at its quotation marks. -/
def ofPieces : List (List Char) → List Target
  | piece :: value :: next :: rest =>
      if opensValue piece then
        match ofSelection (.ofList value) with
        | .ok target => target :: ofPieces (next :: rest)
        | .error _ => ofPieces (next :: rest)
      else
        ofPieces (value :: next :: rest)
  | _ => []

/-- The targets that markup offers, from left to right. -/
def ofMarkup (markup : String) : List Target :=
  ofPieces (pieces (· == '"') markup.toList)

end Target

end ProcessLogic
