import ProcessLogic.Engine.Verdict
import ProcessLogic.Text.Blank

/-!
# Replies of an engine

A reply is an object with a member `result`, or an array of nothing but the result; where there is
none the result is null.  Blanks around the reply do not count.

Of the result the numbers and strings must stand for something.  Other members are not looked at:
they only have to be sound JSON, and their keys have to be strings.
-/

namespace ProcessLogic

structure Reply where
  result : Value
deriving Repr

namespace Reply

def resultKey : String := "result"

/-- Members of an object with their keys decoded. -/
def decodeKeys : List (Quoted × Tree) → Option (List (String × Tree))
  | [] => some []
  | (key, value) :: rest => do
      return (← key.string?, value) :: (← decodeKeys rest)

/-- The trees that stand where the result stands. -/
def results? : Tree → Option (List Tree)
  | .object members => do
      let decoded ← decodeKeys members
      return (decoded.filter fun member => member.1 = resultKey).map Prod.snd
  | .array items => some items
  | _ => none

/-- The reply whose result stands in a document. -/
def ofTree? (tree : Tree) : Option Reply := do
  match ← results? tree with
  | [] => return ⟨.null⟩
  | [result] => return ⟨(← result.value? (nestingLimit - 1)).sortKeys⟩
  | _ => none

/-- Reads a reply from a line. -/
def read? (line : String) : Option Reply := do
  ofTree? (← Tree.ofTokens? (← Token.lex (trim line.toList)))

def verdict (r : Reply) : Verdict := .ofResult r.result

end Reply

end ProcessLogic
