import ProcessLogic.Text.ExtendingMark
import ProcessLogic.Text.Ignorable
import ProcessLogic.Text.Unprintable

/-!
# Inspection texts

A value can be shown for inspection as the name of its type with its fields in braces.  This is
not what users read: it is exact, it quotes every string, and it shows characters by number that
cannot be seen, or that would blend into the character in front of them.

The parts are put together from texts that have been made already, so each type says in one
place how it is shown.
-/

namespace ProcessLogic.Inspect

/-- Whether a character is shown by number.  From the space to the tilde none is. -/
def isHidden (c : Char) : Bool :=
  !(' ' ≤ c && c ≤ '~') && (isUnprintable c || isIgnorable c || isExtendingMark c)

/-- What stands for one character between quotation marks. -/
def character : Char → List Char
  | '"' => ['\\', '"']
  | '\\' => ['\\', '\\']
  | '\n' => ['\\', 'n']
  | '\r' => ['\\', 'r']
  | '\t' => ['\\', 't']
  | '\x00' => ['\\', '0']
  | c =>
      if isHidden c then
        ['\\', 'u', '\x7b'] ++ Nat.toDigits 16 c.toNat ++ ['\x7d']
      else
        [c]

/-- A string between quotation marks. -/
def string (text : String) : String :=
  "\"" ++ .ofList (text.toList.flatMap character) ++ "\""

def bool (value : Bool) : String := if value then "true" else "false"

def separated (parts : List String) : String := ", ".intercalate parts

def list (items : List String) : String := "[" ++ separated items ++ "]"

/-- A value inside the constructor that holds it. -/
def constructor (name inner : String) : String := name ++ "(" ++ inner ++ ")"

def option : Option String → String
  | none => "None"
  | some inner => constructor "Some" inner

def field (entry : String × String) : String := entry.1 ++ ": " ++ entry.2

/-- A map, its keys and values shown already. -/
def map (entries : List (String × String)) : String :=
  "\x7b" ++ separated (entries.map field) ++ "\x7d"

/-- A structure with all its fields. -/
def record (name : String) (fields : List (String × String)) : String :=
  name ++ " \x7b " ++ separated (fields.map field) ++ " \x7d"

/-- A structure that keeps some of its fields to itself. -/
def partialRecord (name : String) (fields : List (String × String)) : String :=
  name ++ " \x7b " ++ separated (fields.map field ++ [".."]) ++ " \x7d"

end ProcessLogic.Inspect
