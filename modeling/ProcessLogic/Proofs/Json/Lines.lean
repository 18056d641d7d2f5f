import ProcessLogic.Proofs.Json.Written

/-!
# Values on several lines

A value that is written with each item and member on a line of its own is a text of the same
document as the value on one line: the two differ in white space only.  So it is read back as well,
if its numbers are words, which are written as integers without leading zeros.

`Value.Printed` says of a value and a document that the value is written as the document, on one
line or on several.
-/

namespace ProcessLogic

/-! ### Words -/

namespace Decimal

/-- Of all numbers only zero begins with a zero. -/
theorem digits_eq_of_head? {n : Nat} (h : (digits n).head? = some '0') : digits n = ['0'] := by
  induction n using Nat.strongRecOn with
  | ind n ih =>
      rcases Nat.lt_or_ge n 10 with small | large
      · rw [digits, Nat.toDigits_of_lt_base small] at h ⊢
        rw [Option.some.inj h]
      · have front : digits n = digits (n / 10) ++ [Nat.digitChar (n % 10)] :=
          Nat.toDigits_of_base_le (by decide) large
        rw [front, List.head?_append_of_ne_nil _ (digits_ne_nil _)] at h
        have zero : n / 10 = 0 := by
          rw [← value_digits (n / 10), ih (n / 10) (by omega) h]
          rfl
        omega

end Decimal

namespace Numeral

/-- The numeral that is written for a word. -/
def ofWord (n : Nat) : Numeral := ⟨false, Decimal.digits n, [], none⟩

theorem text_ofWord (n : Nat) : (ofWord n).text = Decimal.digits n := by
  simp [text, ofWord]

theorem grammatical_ofWord (n : Nat) : (ofWord n).Grammatical := by
  refine ⟨⟨⟨Decimal.digits_ne_nil n, ?_⟩, Decimal.digits_eq_of_head?⟩, ?_, ?_⟩
  · intro c hc
    exact Decimal.isDigit_of_mem_digits hc
  · simp [ofWord]
  · simp [ofWord]

/-- A word is read back from its numeral. -/
theorem number?_ofWord {n : Nat} (h : n < UInt64.size) :
    (ofWord n).number? = some (.integer n) := by
  have value : (ofWord n).integer? = some (n : Int) := by
    simp [integer?, ofWord, Decimal.value_digits, h]
  rw [number?, value]

end Numeral

/-- A number that is a word of 64 bits. -/
def Number.IsWord (n : Number) : Prop := ∃ k < UInt64.size, n = .integer (k : Nat)

theorem Value.Written.word {k : Nat} (h : k < UInt64.size) :
    Written (.number (.integer k)) (.number (.ofWord k)) := by
  refine ⟨?_, rfl, ?_, ?_⟩
  · rw [Json.decode, Numeral.number?_ofWord h, Option.map_some]
  · exact List.forall_mem_singleton.mpr (Numeral.grammatical_ofWord k)
  · rw [compact, Tree.tokens, List.flatMap_singleton, Token.text, Numeral.text_ofWord]
    exact String.toList_ofList

/-! ### Lines -/

namespace Layout

/-- Texts with a text of separators between them. -/
theorem intercalate {sep : List Token} {gap : String} (hsep : Layout sep gap.toList)
    {parts : List (List Token)} {texts : List String}
    (h : List.Forall₂ (fun ts text => Layout ts text.toList) parts texts) :
    Layout (sep.intercalate parts) (gap.intercalate texts).toList := by
  rw [String.toList_intercalate]
  induction h with
  | nil => exact .nil
  | cons first others ih =>
      cases others with
      | nil =>
          rw [List.map_singleton, List.intercalate_singleton, List.intercalate_singleton]
          exact first
      | cons second others =>
          rw [List.map_cons, List.map_cons, List.intercalate_cons_cons,
            List.intercalate_cons_cons]
          exact (first.append hsep).append ih

theorem newline (level : Nat) : Layout [] (Value.newline level).toList := by
  apply of_spaces
  intro c hc
  rw [Value.newline, String.toList_ofList, List.mem_cons] at hc
  rcases hc with rfl | hc
  · rfl
  · rw [List.eq_of_mem_replicate hc]
    rfl

/-- Parts on lines of their own, between two marks. -/
theorem block {first last : Token} {front back : String} (opening : Layout [first] front.toList)
    (closing : Layout [last] back.toList) {level : Nat} {parts : List (List Token)}
    {texts : List String} (h : List.Forall₂ (fun ts text => Layout ts text.toList) parts texts) :
    Layout (first :: ([.comma].intercalate parts ++ [last]))
      (Value.block front back level texts).toList := by
  have comma : Layout [.comma] ("," ++ Value.newline (level + 1)).toList := by
    rw [String.toList_append]
    exact .token trivial (newline _)
  rw [Value.block]
  split
  · rename_i none
    rw [List.isEmpty_iff.mp none] at h
    rw [List.forall₂_nil_right_iff.mp h, String.toList_append]
    exact opening.append closing
  · simp only [String.toList_append]
    have whole := (((opening.append (newline (level + 1))).append (comma.intercalate h)).append
      (newline level)).append closing
    simpa using whole

end Layout

namespace Value

theorem prettyItems_eq_map (level : Nat) (items : List Value) :
    prettyItems level items = items.map (pretty level) := by
  induction items with
  | nil => rfl
  | cons item rest ih => rw [prettyItems, ih, List.map_cons]

theorem prettyMembers_eq_map (level : Nat) (members : List (String × Value)) :
    prettyMembers level members = members.map fun m => quote m.1 ++ ": " ++ pretty level m.2 := by
  induction members with
  | nil => rfl
  | cons member rest ih => rw [prettyMembers, ih, List.map_cons]

/-- A value is written as a document, on one line and on several. -/
structure Printed (v : Value) (t : Tree) : Prop where
  written : Written v t
  layout (level : Nat) : Layout t.tokens (v.pretty level).toList

namespace Printed

variable {items : List Value} {trees : List Tree} {entries : List (String × Value)}
  {members : List (Quoted × Tree)}

theorem string (value : String) : Printed (.string value) (.string (.ofString value)) :=
  ⟨.string value, fun _ => (Written.string value).layout⟩

theorem array (h : List.Forall₂ Printed items trees) : Printed (.array items) (.array trees) := by
  refine ⟨.array (h.imp fun _ _ part => part.written), fun level => ?_⟩
  have opening : Layout [.beginArray] "[".toList := .token trivial .nil
  have closing : Layout [.endArray] "]".toList := .token trivial .nil
  rw [pretty, prettyItems_eq_map, Tree.tokens, Tree.tokensOfItems_eq_map]
  apply opening.block closing
  rw [List.forall₂_map_left_iff, List.forall₂_map_right_iff]
  exact h.flip.imp fun _ _ part => part.layout (level + 1)

theorem member {e : String × Value} {m : Quoted × Tree} (h : MembersBy Printed e m)
    (level : Nat) :
    Layout (Tree.memberTokens m) (quote e.1 ++ ": " ++ pretty level e.2).toList := by
  obtain ⟨key, value⟩ := h
  have name : Layout [.string m.1] (quote e.1).toList := by
    rw [key]
    exact (Written.string e.1).layout
  have colon : Layout [.colon] ": ".toList := .token trivial (.space rfl .nil)
  rw [String.toList_append, String.toList_append]
  exact (name.append colon).append (value.layout level)

theorem object (h : List.Forall₂ (MembersBy Printed) entries members) :
    Printed (.object entries) (.object members) := by
  refine ⟨.object (h.imp fun _ _ part => ⟨part.1, part.2.written⟩), fun level => ?_⟩
  have opening : Layout [.beginObject] "\x7b".toList := .token trivial .nil
  have closing : Layout [.endObject] "\x7d".toList := .token trivial .nil
  rw [pretty, prettyMembers_eq_map, Tree.tokens, Tree.tokensOfMembers_eq_map]
  apply opening.block closing
  rw [List.forall₂_map_left_iff, List.forall₂_map_right_iff]
  exact h.flip.imp fun _ _ part => member part (level + 1)

theorem compositional : Compositional Printed where
  null := ⟨.null, fun _ => Written.null.layout⟩
  bool value := ⟨.bool value, fun _ => (Written.bool value).layout⟩
  string := string
  array := array
  object := object

theorem word {k : Nat} (h : k < UInt64.size) :
    Printed (.number (.integer k)) (.number (.ofWord k)) :=
  ⟨.word h, fun _ => (Written.word h).layout⟩

end Printed

variable {v : Value}

theorem exists_printed (h : v.Every Number.IsWord fun _ => True) : ∃ t, Printed v t := by
  apply Printed.compositional.exists_tree _ v h
  rintro n ⟨k, hk, rfl⟩
  exact ⟨_, .word hk⟩

/-- **What is written on several lines is read back**, with or without white space behind it. -/
theorem read?_pretty (h : v.Every Number.IsWord fun _ => True) (depth : v.depth ≤ nestingLimit)
    (level : Nat) {spaces : List Char} (hs : ∀ c ∈ spaces, Token.isSpace c = true) :
    read? (.ofList ((v.pretty level).toList ++ spaces)) = some v := by
  obtain ⟨t, written, layout⟩ := exists_printed h
  rw [read?_of_layout ((layout level).append_space hs), Tree.value?,
    if_pos (written.depth ▸ depth), written.decode]

end Value

end ProcessLogic
