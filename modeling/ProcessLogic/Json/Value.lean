import ProcessLogic.Json.Number
import ProcessLogic.Json.Reader

/-!
# Values of JSON

A value is a document with its numbers and strings decoded.  Reading a value refuses documents
that are nested too deeply, though the grammar knows no such limit, and documents in which some
number or string stands for nothing.

Where objects are kept as maps, their keys are sorted by code points, and of several members with
one key the last one counts.
-/

namespace ProcessLogic

/-- A document whose numbers and strings have been decoded. -/
abbrev Value := Json Number String

/-- How many arrays and objects may be open at once in a text. -/
def nestingLimit : Nat := 127

/-- The value of a document, if its nesting stays within a limit. -/
def Tree.value? (limit : Nat) (tree : Tree) : Option Value :=
  if tree.depth ≤ limit then tree.decode Numeral.number? Quoted.string? else none

namespace Value

/-- Reads a text as a value. -/
def read? (text : String) : Option Value := do
  (← Tree.read? text).value? nestingLimit

/-- Puts a member into members that are sorted by key, in place of one with the same key. -/
def insertMember (key : String) (value : Value) : List (String × Value) → List (String × Value)
  | [] => [(key, value)]
  | member :: rest =>
      if key < member.1 then (key, value) :: member :: rest
      else if key = member.1 then (key, value) :: rest
      else member :: insertMember key value rest

/-- Members sorted by key, the last one for each key. -/
def sortMembers (members : List (String × Value)) : List (String × Value) :=
  members.foldl (fun sorted member => insertMember member.1 member.2 sorted) []

mutual

/-- A value whose objects are maps, at every level. -/
def sortKeys : Value → Value
  | .array items => .array (sortKeysItems items)
  | .object members => .object (sortMembers (sortKeysMembers members))
  | .null => .null
  | .bool value => .bool value
  | .number value => .number value
  | .string value => .string value

def sortKeysItems : List Value → List Value
  | [] => []
  | item :: rest => sortKeys item :: sortKeysItems rest

def sortKeysMembers : List (String × Value) → List (String × Value)
  | [] => []
  | (key, value) :: rest => (key, sortKeys value) :: sortKeysMembers rest

end

end Value

end ProcessLogic
