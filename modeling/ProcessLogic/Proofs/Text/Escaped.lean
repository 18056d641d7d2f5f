import ProcessLogic.Text.Entity

/-!
# Escaped text

Brackets and quotation marks are what markup is made of, and escaped text has none of them.  It has
ampersands, but each of them begins one of five entities, so that a reader who replaces the entities
again, once and from left to right, gets back the text that was escaped.  That the text may have had
entities in it does no harm: their ampersands were escaped as well.

Only text without any of the five characters stays as it is, so whoever looks for them first need
not go through such text a second time: `escapeSparing_eq`.
-/

namespace ProcessLogic

/-- Text without brackets and quotation marks. -/
def Plain (text : List Char) : Prop :=
  ∀ c ∈ text, c ≠ '<' ∧ c ≠ '>' ∧ c ≠ '"' ∧ c ≠ '\''

instance (text : List Char) : Decidable (Plain text) :=
  List.decidableBAll (fun c => c ≠ '<' ∧ c ≠ '>' ∧ c ≠ '"' ∧ c ≠ '\'') text

theorem plain_entity (c : Char) : Plain (entity c) := by
  unfold entity
  split
  case h_6 less greater quote apostrophe =>
    rintro a ha
    rw [List.mem_singleton.mp ha]
    exact ⟨less, greater, quote, apostrophe⟩
  all_goals decide

/-- Escaping leaves no bracket and no quotation mark. -/
theorem plain_escape (text : String) : Plain (escape text).toList := by
  rw [toList_escape]
  rintro c hc
  obtain ⟨a, -, ha⟩ := List.mem_flatMap.mp hc
  exact plain_entity a c ha

/-! ### The five entities -/

/-- The characters that markup gives a meaning. -/
def markupCharacters : List Char := ['&', '<', '>', '"', '\'']

/-- What comes behind the ampersand of an entity. -/
def entityNames : List String := ["amp;", "lt;", "gt;", "quot;", "#39;"]

theorem ampersand_notMem_entityName : ∀ name ∈ entityNames, '&' ∉ name.toList := by decide

theorem length_entityName_pos : ∀ name ∈ entityNames, 0 < name.toList.length := by decide

/-- A character stays as it is or becomes an entity. -/
theorem entity_cases (c : Char) :
    (c ∉ markupCharacters ∧ entity c = [c]) ∨
      (c ∈ markupCharacters ∧ ∃ name ∈ entityNames, entity c = '&' :: name.toList) := by
  unfold entity
  split
  case h_1 => exact .inr ⟨by decide, "amp;", by decide, rfl⟩
  case h_2 => exact .inr ⟨by decide, "lt;", by decide, rfl⟩
  case h_3 => exact .inr ⟨by decide, "gt;", by decide, rfl⟩
  case h_4 => exact .inr ⟨by decide, "quot;", by decide, rfl⟩
  case h_5 => exact .inr ⟨by decide, "#39;", by decide, rfl⟩
  case h_6 ampersand less greater quote apostrophe =>
    refine .inl ⟨?_, rfl⟩
    simp only [markupCharacters, List.mem_cons, List.not_mem_nil, or_false, not_or]
    exact ⟨ampersand, less, greater, quote, apostrophe⟩

/-- A stretch of text without some character can be left out when one looks for that character. -/
theorem suffix_of_suffix_append {c : Char} {front after text : List Char} (h : c ∉ front)
    (suffix : c :: after <:+ front ++ text) : c :: after <:+ text := by
  induction front with
  | nil => exact suffix
  | cons a front ih =>
      rcases List.suffix_cons_iff.mp suffix with whole | suffix
      · exact absurd (List.cons.inj whole).1 (List.ne_of_not_mem_cons h)
      · exact ih (List.not_mem_of_not_mem_cons h) suffix

/-- Every ampersand in escaped text begins an entity. -/
theorem entity_of_ampersand {text : String} {after : List Char}
    (suffix : '&' :: after <:+ (escape text).toList) :
    ∃ name ∈ entityNames, name.toList <+: after := by
  rw [toList_escape] at suffix
  generalize text.toList = cs at suffix
  induction cs with
  | nil => exact absurd (List.suffix_nil.mp suffix) (List.cons_ne_nil _ _)
  | cons c cs ih =>
      rw [List.flatMap_cons] at suffix
      rcases entity_cases c with ⟨hc, kept⟩ | ⟨-, name, hname, replaced⟩
      · rw [kept] at suffix
        have other : '&' ∉ [c] := by
          intro h
          obtain rfl := List.mem_singleton.mp h
          exact hc (by decide)
        exact ih (suffix_of_suffix_append other suffix)
      · rw [replaced, List.cons_append] at suffix
        rcases List.suffix_cons_iff.mp suffix with whole | suffix
        · exact ⟨name, hname, _, (List.cons.inj whole).2.symm⟩
        · exact ih (suffix_of_suffix_append (ampersand_notMem_entityName name hname) suffix)

/-! ### Reading escaped text back -/

/-- Characters with the entities among them replaced, once and from left to right. -/
def replaceEntities : List Char → List Char
  | '&' :: 'a' :: 'm' :: 'p' :: ';' :: rest => '&' :: replaceEntities rest
  | '&' :: 'l' :: 't' :: ';' :: rest => '<' :: replaceEntities rest
  | '&' :: 'g' :: 't' :: ';' :: rest => '>' :: replaceEntities rest
  | '&' :: 'q' :: 'u' :: 'o' :: 't' :: ';' :: rest => '"' :: replaceEntities rest
  | '&' :: '#' :: '3' :: '9' :: ';' :: rest => '\'' :: replaceEntities rest
  | c :: rest => c :: replaceEntities rest
  | [] => []

/-- What a reader of markup takes text for. -/
def unescape (text : String) : String := .ofList (replaceEntities text.toList)

theorem replaceEntities_cons {c : Char} (h : c ≠ '&') (rest : List Char) :
    replaceEntities (c :: rest) = c :: replaceEntities rest := by
  rw [replaceEntities] <;> exact fun _ same => absurd same h

/-- The entity of a character stands for that character, whatever comes behind it. -/
theorem replaceEntities_entity_append (c : Char) (rest : List Char) :
    replaceEntities (entity c ++ rest) = c :: replaceEntities rest := by
  unfold entity
  split
  case h_6 ampersand _ _ _ _ => exact replaceEntities_cons ampersand rest
  all_goals rfl

/-- Nothing of a text is lost when it is escaped. -/
theorem unescape_escape (text : String) : unescape (escape text) = text := by
  have all (cs : List Char) : replaceEntities (cs.flatMap entity) = cs := by
    induction cs with
    | nil => rfl
    | cons c cs ih => rw [List.flatMap_cons, replaceEntities_entity_append, ih]
  rw [unescape, toList_escape, all, String.ofList_toList]

theorem escape_injective : Function.Injective escape :=
  Function.LeftInverse.injective unescape_escape

/-! ### Text that stays as it is -/

theorem length_le_length_flatMap_entity (cs : List Char) :
    cs.length ≤ (cs.flatMap entity).length := by
  induction cs with
  | nil => exact Nat.le_refl 0
  | cons c cs ih =>
      rw [List.flatMap_cons, List.length_append, List.length_cons]
      rcases entity_cases c with ⟨-, kept⟩ | ⟨-, name, -, replaced⟩
      · rw [kept, List.length_singleton]
        omega
      · rw [replaced, List.length_cons]
        omega

/-- Text stays as it is just if there is nothing in it to escape. -/
theorem escape_eq_self_iff {text : String} :
    escape text = text ↔ ∀ c ∈ text.toList, c ∉ markupCharacters := by
  rw [← String.toList_inj, toList_escape]
  induction text.toList with
  | nil => simp
  | cons c cs ih =>
      rw [List.flatMap_cons, List.forall_mem_cons, ← ih]
      rcases entity_cases c with ⟨hc, kept⟩ | ⟨hc, name, hname, replaced⟩
      · rw [kept, List.singleton_append, List.cons_inj_right]
        exact ⟨fun same => ⟨hc, same⟩, And.right⟩
      · refine ⟨fun same => ?_, fun h => absurd hc h.1⟩
        -- an entity is longer than a character, and nothing else gets shorter
        have longer := length_entityName_pos name hname
        have lengths := congrArg List.length same
        rw [replaced, List.length_append, List.length_cons, List.length_cons] at lengths
        have rest := length_le_length_flatMap_entity cs
        omega

/-- Escaping that hands text on as it is where there is nothing to escape. -/
def escapeSparing (text : String) : String :=
  if text.toList.any markupCharacters.contains then escape text else text

theorem escapeSparing_eq (text : String) : escapeSparing text = escape text := by
  rw [escapeSparing]
  split
  · rfl
  · rename_i none
    refine (escape_eq_self_iff.mpr fun c hc => ?_).symm
    simp only [List.any_eq_true, List.contains_iff_mem, not_exists, not_and] at none
    exact none c hc

end ProcessLogic
