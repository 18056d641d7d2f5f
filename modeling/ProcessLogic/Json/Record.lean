import ProcessLogic.Json.Value

/-!
# Tagged records

Messages and questions are records with a *tag* that says which of several kinds a record is of,
and so which fields it has.  A record is written as an object that has the tag for a member, or
as an array of the tag and the fields in their order; an array may be too short, and whoever
reads the record then misses a field, but not too long.

An object may have members that are no fields of its kind, and those do not count.  The tag and
each field may occur once only.
-/

namespace ProcessLogic.Value

/-- The values of all members with a key. -/
def members (key : String) (entries : List (String × Value)) : List Value :=
  (entries.filter fun entry => entry.1 = key).map Prod.snd

/-- The only value with a key. -/
def sole? (key : String) (entries : List (String × Value)) : Option Value :=
  match members key entries with
  | [value] => some value
  | _ => none

def string? : Value → Option String
  | .string value => some value
  | _ => none

def bool? : Value → Option Bool
  | .bool value => some value
  | _ => none

/-- The text of a field. -/
def stringField? (key : String) (entries : List (String × Value)) : Option String := do
  (← sole? key entries).string?

/-- The truth value of a field. -/
def boolField? (key : String) (entries : List (String × Value)) : Option Bool := do
  (← sole? key entries).bool?

/-- The truth value of a field that counts as false if it is missing. -/
def switchField? (key : String) (entries : List (String × Value)) : Option Bool :=
  if (members key entries).isEmpty then some false else boolField? key entries

/-- The kind of a record and its fields by name.  `fields` gives the names of the fields of each
kind, in order. -/
def record? {κ : Type} (tag : String) (kind? : String → Option κ) (fields : κ → List String) :
    Value → Option (κ × List (String × Value))
  | .object entries => do
      return (← kind? (← stringField? tag entries), entries)
  | .array (.string name :: values) => do
      let kind ← kind? name
      if values.length ≤ (fields kind).length then
        return (kind, (fields kind).zip values)
      else
        none
  | _ => none

end ProcessLogic.Value
