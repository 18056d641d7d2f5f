import ProcessLogic.Proofs.Formula.Inert
import ProcessLogic.Task.Question

/-!
# How questions are stated

A question is stated in plain text, and in markup with its names and its formula escaped one by one.
The two state the same question: the signs between the names need no escape, so that the one is the
other, escaped as a whole.  Names and formulas that have such signs or whole entities in them make
no difference to this.
-/

namespace ProcessLogic

namespace Question

variable {q q' : Question}

/-- Questions are stated alike in markup just if they are stated alike in plain text. -/
theorem describe_eq_describe_iff : q'.describe = q.describe ↔ q'.text = q.text := by
  rw [describe_eq_escape_text, describe_eq_escape_text, escape_injective.eq_iff]

/-- By which semantics a formula is checked is not stated. -/
theorem text_of_edit?_semantics {strict : Bool} (h : q.edit? (.semantics strict) = some q') :
    q'.text = q.text := by
  cases q with
  | strongBisimulation first second => cases h
  | weakBisimulation first second => cases h
  | hml process formula _ =>
      cases h
      rfl

/-- **In markup a question is stated as it is in plain text, escaped.**  The plain statement is read
back from the one in markup, and the two tell the same questions apart.  No name and no formula adds
markup to the statement: it is shown as it is, without tags and without targets.  By which semantics
a formula is checked is part of neither. -/
theorem describe_faithful (q : Question) :
    q.describe = escape q.text ∧
    unescape q.describe = q.text ∧
    (∀ q' : Question, q'.describe = q.describe ↔ q'.text = q.text) ∧
    (Plain q.describe.toList ∧ Markup.shown q.describe = q.describe ∧
      Markup.tags q.describe = [] ∧ Target.ofMarkup q.describe = []) ∧
    ∀ strict q', q.edit? (.semantics strict) = some q' →
      q'.text = q.text ∧ q'.describe = q.describe := by
  have escaped : q.describe = escape q.text := q.describe_eq_escape_text
  refine ⟨escaped, ?_, fun q' => describe_eq_describe_iff, ?_, fun strict q' h => ?_⟩
  · rw [escaped, unescape_escape]
  · have cut := Markup.cut_escape q.text
    rw [escaped]
    exact ⟨plain_escape q.text, cut.shown_eq, cut.tags_eq, Target.ofMarkup_escape q.text⟩
  · have same := text_of_edit?_semantics h
    exact ⟨same, describe_eq_describe_iff.mpr same⟩

/-- A name with an entity and the sign of another kind of question in it, and a formula with a span
and its own sign. -/
theorem describe_faithful_signs :
    let q : Question := .hml "P ~ &lt;Q" "<span data-subformula-id=\"7\">tt |= '" false
    let q' : Question := .hml "P ~ &lt;Q" "<span data-subformula-id=\"7\">tt |= '" true
    q.edit? (.semantics true) = some q' ∧
      q'.describe =
        "P ~ &amp;lt;Q |= &lt;span data-subformula-id=&quot;7&quot;&gt;tt |= &#39;" ∧
      unescape q'.describe = q.text ∧ Target.ofMarkup q'.describe = [] := by
  intro q q'
  have edited : q.edit? (.semantics true) = some q' := rfl
  have stated : q.describe =
      "P ~ &amp;lt;Q |= &lt;span data-subformula-id=&quot;7&quot;&gt;tt |= &#39;" := by decide
  obtain ⟨-, back, -, ⟨-, -, -, targets⟩, semantics⟩ := describe_faithful q
  obtain ⟨-, same⟩ := semantics true q' edited
  rw [same]
  exact ⟨edited, stated, back, targets⟩

end Question

end ProcessLogic
