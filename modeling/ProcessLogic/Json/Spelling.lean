import ProcessLogic.Json.Basic
import ProcessLogic.Json.Token

/-!
# Spelled documents

A `Tree` keeps its numbers and strings as they were spelled, so only the white space between its
tokens is left open, and `Tree.tokens` says what the tokens are.  Reading is the way back from
tokens to trees.
-/

namespace ProcessLogic

/-- A document as it was spelled. -/
abbrev Tree := Json Numeral Quoted

namespace Tree

mutual

/-- The tokens a document is spelled with. -/
def tokens : Tree → List Token
  | .null => [.null]
  | .bool value => [.bool value]
  | .number value => [.number value]
  | .string value => [.string value]
  | .array items => .beginArray :: ([.comma].intercalate (tokensOfItems items) ++ [.endArray])
  | .object members =>
      .beginObject :: ([.comma].intercalate (tokensOfMembers members) ++ [.endObject])

def tokensOfItems : List Tree → List (List Token)
  | [] => []
  | item :: rest => tokens item :: tokensOfItems rest

def tokensOfMembers : List (Quoted × Tree) → List (List Token)
  | [] => []
  | (key, value) :: rest => (.string key :: .colon :: tokens value) :: tokensOfMembers rest

end

/-- The tokens of one member of an object. -/
def memberTokens (member : Quoted × Tree) : List Token :=
  .string member.1 :: .colon :: tokens member.2

theorem tokensOfItems_eq_map (items : List Tree) : tokensOfItems items = items.map tokens := by
  induction items with
  | nil => rfl
  | cons item rest ih => rw [tokensOfItems, ih, List.map_cons]

theorem tokensOfMembers_eq_map (members : List (Quoted × Tree)) :
    tokensOfMembers members = members.map memberTokens := by
  induction members with
  | nil => rfl
  | cons member rest ih => rw [tokensOfMembers, ih, List.map_cons, memberTokens]

/-- What comes behind the first part: every later part with a separator in front of it. -/
theorem intercalate_cons {α β : Type} (sep : β) (f : α → List β) (first : List β) (xs : List α) :
    [sep].intercalate (first :: xs.map f) = first ++ xs.flatMap fun x => sep :: f x := by
  induction xs generalizing first with
  | nil => simp [List.intercalate]
  | cons x xs ih =>
      rw [List.flatMap_cons, List.cons_append, ← ih]
      simp [List.intercalate]

/-- What comes in front of the last part: every earlier part with a separator behind it. -/
theorem intercalate_append_singleton {α β : Type} (sep : β) (f : α → List β) (xs : List α)
    (last : List β) :
    [sep].intercalate (xs.map f ++ [last]) = xs.flatMap (fun x => f x ++ [sep]) ++ last := by
  induction xs with
  | nil => simp [List.intercalate]
  | cons x xs ih =>
      rw [List.map_cons, List.cons_append, List.flatMap_cons, List.append_assoc, ← ih]
      cases xs <;> simp [List.intercalate]

end Tree

end ProcessLogic
