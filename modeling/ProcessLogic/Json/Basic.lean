/-!
# JSON documents

A document is the same tree whatever its numbers and strings are kept as.  Read from a text, they
are kept as they were spelled, and the tree is a `Tree`; that is all the grammar of JSON asks
for.  What a program works with is a `Value`, whose numbers and strings are what the spellings
stand for, and some spellings stand for nothing: a number may be too large, and a string may
contain half of a surrogate pair.

Members of objects are kept in order, with repetitions.  Who reads an object decides what a
repeated key means.
-/

namespace ProcessLogic

/-- A document over `N` for numbers and `S` for strings. -/
inductive Json (N S : Type) where
  | null
  | bool (value : Bool)
  | number (value : N)
  | string (value : S)
  | array (items : List (Json N S))
  | object (members : List (S × Json N S))
deriving Repr

namespace Json

variable {N S N' S' : Type}

mutual

/-- How many arrays and objects are open at once at the deepest point of a document. -/
def depth : Json N S → Nat
  | .null | .bool _ | .number _ | .string _ => 0
  | .array items => itemsDepth items + 1
  | .object members => membersDepth members + 1

def itemsDepth : List (Json N S) → Nat
  | [] => 0
  | item :: rest => max item.depth (itemsDepth rest)

def membersDepth : List (S × Json N S) → Nat
  | [] => 0
  | (_, value) :: rest => max value.depth (membersDepth rest)

end

section Decode

variable (number : N → Option N') (string : S → Option S')

mutual

/-- Decodes every number and string of a document, keys included, if all of them can be. -/
def decode : Json N S → Option (Json N' S')
  | .null => some .null
  | .bool value => some (.bool value)
  | .number value => (number value).map .number
  | .string value => (string value).map .string
  | .array items => (decodeItems items).map .array
  | .object members => (decodeMembers members).map .object

def decodeItems : List (Json N S) → Option (List (Json N' S'))
  | [] => some []
  | item :: rest => do
      return (← item.decode) :: (← decodeItems rest)

def decodeMembers : List (S × Json N S) → Option (List (S' × Json N' S'))
  | [] => some []
  | (key, value) :: rest => do
      return (← string key, ← value.decode) :: (← decodeMembers rest)

end

end Decode

@[simp] theorem depth_array (items : List (Json N S)) :
    (array items).depth = itemsDepth items + 1 := by
  simp [depth]

@[simp] theorem depth_object (members : List (S × Json N S)) :
    (object members).depth = membersDepth members + 1 := by
  simp [depth]

end Json

end ProcessLogic
