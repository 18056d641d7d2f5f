import ProcessLogic.Proofs.Formula.Tags

/-!
# Escaped text in markup

Escaped text is inert.  A reader of markup shows all of it, takes none of it for a tag, finds no
target in it, and where it has entities in it reads the text that was escaped.
-/

namespace ProcessLogic

variable (text : String)

/-- A reader of markup takes nothing of escaped text for a tag, and shows it as it is. -/
theorem Markup.cut_escape : Markup.Cut (escape text) (escape text) [] :=
  .plain (plain_escape text)

/-- Nothing in escaped text can be clicked. -/
theorem Target.ofMarkup_escape : Target.ofMarkup (escape text) = [] :=
  Target.ofPieces_of_quoteless (Target.quoteless_escape text)

/-- **Escaping loses nothing and makes everything harmless.**  In escaped text there are no brackets
and no quotation marks, and every ampersand begins an entity.  Replacing the entities again, once
and from left to right, gives back the text, so no two texts are the same once they are escaped.
Text is escaped in parts as it is as a whole, and with a short cut for text that needs no escape as
it is without.  It stays as it is just if there is nothing in it to escape.  Once escaped, it offers
no target, whatever it was. -/
theorem escape_lossless (s t : String) :
    Plain (escape s).toList ∧
    (∀ before after, (escape s).toList = before ++ '&' :: after →
      ∃ name ∈ entityNames, name.toList <+: after) ∧
    unescape (escape s) = s ∧
    (escape s = escape t ↔ s = t) ∧
    escape (s ++ t) = escape s ++ escape t ∧
    escapeSparing s = escape s ∧
    (escape s = s ↔ ∀ c ∈ s.toList, c ∉ markupCharacters) ∧
    Target.ofMarkup (escape s) = [] := by
  refine ⟨plain_escape s, fun before after split => ?_, unescape_escape s, escape_injective.eq_iff,
    escape_append s t, escapeSparing_eq s, escape_eq_self_iff, Target.ofMarkup_escape s⟩
  exact entity_of_ampersand ⟨before, split.symm⟩

/-- Text with entities in it, one of them escaped already, is told from the text that these stand
for. -/
theorem escape_lossless_entities :
    let s := "<a &lt; &amp;lt;"
    let t := "<a < &lt;"
    (escape s).toList = "&lt;a &amp;lt; ".toList ++ '&' :: "amp;amp;lt;".toList ∧
      (∃ name ∈ entityNames, name.toList <+: "amp;amp;lt;".toList) ∧
      unescape (escape s) = s ∧ unescape s = t ∧ escape s ≠ escape t ∧
      Target.ofMarkup (escape s) = [] := by
  intro s t
  have split : (escape s).toList = "&lt;a &amp;lt; ".toList ++ '&' :: "amp;amp;lt;".toList := by
    decide
  have different : s ≠ t := by decide
  obtain ⟨-, entities, back, same, -, -, -, none⟩ := escape_lossless s t
  exact ⟨split, entities _ _ split, back, by decide, mt same.mp different, none⟩

end ProcessLogic
