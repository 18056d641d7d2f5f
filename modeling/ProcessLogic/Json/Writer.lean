import ProcessLogic.Json.Value

/-!
# Writing values

A value is written on one line without any white space, or with each item and member on a line of
its own, two spaces further in than the array or object that holds it.  Members are written in
the order they have.
-/

namespace ProcessLogic.Value

/-- A string with its quotation marks. -/
def quote (s : String) : String := "\"" ++ .ofList (Quoted.ofString s).text ++ "\""

def boolText (value : Bool) : String := if value then "true" else "false"

mutual

/-- A value on one line. -/
def compact : Value → String
  | .null => "null"
  | .bool value => boolText value
  | .number value => value.text
  | .string value => quote value
  | .array items => "[" ++ ",".intercalate (compactItems items) ++ "]"
  | .object members => "\x7b" ++ ",".intercalate (compactMembers members) ++ "\x7d"

def compactItems : List Value → List String
  | [] => []
  | item :: rest => compact item :: compactItems rest

def compactMembers : List (String × Value) → List String
  | [] => []
  | (key, value) :: rest => (quote key ++ ":" ++ compact value) :: compactMembers rest

end

/-- The start of a line at a level of nesting. -/
def newline (level : Nat) : String := .ofList ('\n' :: List.replicate (2 * level) ' ')

/-- Parts on lines of their own, between the marks of the array or object that holds them. -/
def block (opening closing : String) (level : Nat) (parts : List String) : String :=
  if parts.isEmpty then
    opening ++ closing
  else
    opening ++ newline (level + 1) ++ ("," ++ newline (level + 1)).intercalate parts
      ++ newline level ++ closing

mutual

/-- A value on several lines, inside as many arrays and objects as `level` says. -/
def pretty (level : Nat) : Value → String
  | .null => "null"
  | .bool value => boolText value
  | .number value => value.text
  | .string value => quote value
  | .array items => block "[" "]" level (prettyItems (level + 1) items)
  | .object members => block "\x7b" "\x7d" level (prettyMembers (level + 1) members)

def prettyItems (level : Nat) : List Value → List String
  | [] => []
  | item :: rest => pretty level item :: prettyItems level rest

def prettyMembers (level : Nat) : List (String × Value) → List String
  | [] => []
  | (key, value) :: rest =>
      (quote key ++ ": " ++ pretty level value) :: prettyMembers level rest

end

end ProcessLogic.Value
