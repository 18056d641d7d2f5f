import ProcessLogic.Proofs.Formula.Span
import ProcessLogic.Proofs.Text.Escaped
import ProcessLogic.Proofs.Text.Trim

/-!
# Scanning markup for targets

Targets are found by the text of an attribute alone, wherever it stands.  That this finds the spans
of a formula and nothing else rests on quotation marks: a span has four of them, escaped text has
none, and the scanner looks only in front of one.  In front of the first quotation mark of a span
stands the tag, after whatever text led up to it, and a tag is no id attribute.  So a row of spans
is read off one by one, and each leaves behind text without quotation marks, for the next to begin
with.
-/

namespace ProcessLogic

namespace Target

/-! ### Reading a selection back -/

theorem toList_text_node (id : FormulaId) :
    (node id).text.toList = Decimal.digits id.value.toNat :=
  String.toList_ofList

/-- What stands in the attribute is read back. -/
theorem ofSelection_text (t : Target) : ofSelection t.text = .ok t := by
  cases t with
  | leaf => rfl
  | node id =>
      have digit : ∀ c ∈ (node id).text.toList, c.isDigit = true := by
        rw [toList_text_node]
        exact fun c hc => Decimal.isDigit_of_mem_digits hc
      have whole : trim (node id).text.toList = (node id).text.toList :=
        trim_of_forall_not_blank fun c hc => isBlank_of_isDigit (digit c hc)
      have noMarker : (node id).text.toList ≠ leafMarker.toList := by
        intro same
        have sign : '-' ∈ (node id).text.toList := by
          rw [same]
          decide
        exact absurd (digit '-' sign) (by decide)
      rw [ofSelection, whole, if_neg noMarker, toList_text_node, Decimal.word?_digits]

/-! ### Quotation marks -/

/-- Text without quotation marks. -/
def Quoteless (text : List Char) : Prop := ∀ c ∈ text, (c == '"') = false

instance (text : List Char) : Decidable (Quoteless text) :=
  List.decidableBAll (fun c => (c == '"') = false) text

theorem Quoteless.append {s t : List Char} (hs : Quoteless s) (ht : Quoteless t) :
    Quoteless (s ++ t) := by
  intro c hc
  rcases List.mem_append.mp hc with hc | hc
  · exact hs c hc
  · exact ht c hc

/-- Escaping leaves no quotation mark. -/
theorem quoteless_escape (text : String) : Quoteless (escape text).toList :=
  fun c hc => beq_false_of_ne (plain_escape text c hc).2.2.1

theorem quoteless_text (t : Target) : Quoteless t.text.toList := by
  cases t with
  | leaf => decide
  | node id =>
      rw [toList_text_node]
      intro c hc
      refine beq_false_of_ne fun same => ?_
      exact absurd (same ▸ Decimal.isDigit_of_mem_digits hc) (by decide)

/-! ### The parts of a span -/

/-- A span up to its first quotation mark. -/
def tag : String := "<span class="

/-- What leads up to the value of the id attribute. -/
def assignment : String := " " ++ idAttribute ++ "="

theorem quoteless_tag : Quoteless tag.toList := by decide

theorem quoteless_spanClass : Quoteless spanClass.toList := by decide

theorem quoteless_assignment : Quoteless assignment.toList := by decide

/-- A span behind its last quotation mark. -/
def body (inner : String) : String := ">" ++ inner ++ "</span>"

theorem clickable_eq (t : Target) (inner : String) :
    t.clickable inner = tag ++ ("\"" ++ (spanClass ++ ("\"" ++ (assignment ++ ("\"" ++
      (t.text ++ ("\"" ++ body inner))))))) := by
  have opened : ("<span class=\"" : String) = "<span class=" ++ "\"" := rfl
  have between : ("\" " : String) = "\"" ++ " " := rfl
  have value : ("=\"" : String) = "=" ++ "\"" := rfl
  have closed : ("\">" : String) = "\"" ++ ">" := rfl
  unfold clickable tag assignment body
  rw [opened, between, value, closed]
  simp only [String.append_assoc]

/-- The pieces of a span, with quoteless text in front of it. -/
theorem pieces_clickable {front : List Char} (h : Quoteless front) (t : Target) (inner : String)
    (rest : List Char) :
    pieces (· == '"') (front ++ (t.clickable inner).toList ++ rest) =
      (front ++ tag.toList) :: spanClass.toList :: assignment.toList :: t.text.toList ::
        pieces (· == '"') ((body inner).toList ++ rest) := by
  have quote : "\"".toList = ['"'] := rfl
  simp only [clickable_eq, String.toList_append, quote, List.append_assoc, List.cons_append,
    List.nil_append]
  rw [← List.append_assoc front, pieces_append_cons rfl _ (h.append quoteless_tag),
    pieces_append_cons rfl _ quoteless_spanClass, pieces_append_cons rfl _ quoteless_assignment,
    pieces_append_cons rfl _ t.quoteless_text]

/-! ### One span after the other -/

/-- No tag ends like the id attribute, whatever stands in front of it. -/
theorem opensValue_tag (front : List Char) : opensValue (front ++ tag.toList) = false := by
  have name : (idAttribute ++ "=").toList = "data-subformula-i".toList ++ ['d', '='] := rfl
  have last : tag.toList = "<span clas".toList ++ ['s', '='] := rfl
  rw [opensValue, ← Bool.not_eq_true, List.isSuffixOf_iff_suffix, name, last]
  -- the last two characters already differ, so nothing in `front` can matter
  rintro ⟨more, same⟩
  rw [← List.append_assoc, ← List.append_assoc] at same
  have ends := (List.append_inj' same rfl).2
  exact absurd ends (by decide)

theorem pieces_ne_nil (sep : Char → Bool) (text : List Char) : pieces sep text ≠ [] := by
  induction text with
  | nil => simp
  | cons c text ih =>
      rw [pieces]
      split
      · simp
      · simpa using ih

/-- A span with quoteless text in front of it yields its target, and leaves its body. -/
theorem ofPieces_clickable {front : List Char} (h : Quoteless front) (t : Target) (inner : String)
    (rest : List Char) :
    ofPieces (pieces (· == '"') (front ++ (t.clickable inner).toList ++ rest)) =
      t :: ofPieces (pieces (· == '"') ((body inner).toList ++ rest)) := by
  rw [pieces_clickable h]
  obtain ⟨next, others, split⟩ :=
    List.exists_cons_of_ne_nil (pieces_ne_nil (· == '"') ((body inner).toList ++ rest))
  have plain : opensValue spanClass.toList = false := by decide
  have opens : opensValue assignment.toList = true := by decide
  rw [split]
  rw [ofPieces, opensValue_tag, if_neg Bool.false_ne_true, ofPieces, plain,
    if_neg Bool.false_ne_true, ofPieces, opens, if_pos rfl, String.ofList_toList, ofSelection_text]

theorem quoteless_body {inner : String} (h : Quoteless inner.toList) :
    Quoteless (body inner).toList := by
  rw [body, String.toList_append, String.toList_append]
  exact (Quoteless.append (by decide) h).append (by decide)

/-- Text without quotation marks offers no targets. -/
theorem ofPieces_of_quoteless {text : List Char} (h : Quoteless text) :
    ofPieces (pieces (· == '"') text) = [] := by
  rw [pieces_eq_singleton h]
  rfl

/-- A row of spans yields the targets of the spans, from left to right.  The induction is on the
row, with the text left over from the span before in front of it. -/
theorem ofPieces_intercalate {joint : String} (hj : Quoteless joint.toList) (spans : List Span)
    {front : List Char} (hf : Quoteless front) :
    ofPieces (pieces (· == '"') (front ++ (joint.intercalate (spans.map Span.markup)).toList)) =
      spans.map Span.target := by
  induction spans generalizing front with
  | nil =>
      rw [List.map_nil, String.intercalate_nil, String.toList_empty, List.append_nil]
      exact ofPieces_of_quoteless hf
  | cons s spans ih =>
      have hb : Quoteless (body (escape s.text)).toList := quoteless_body (quoteless_escape s.text)
      cases spans with
      | nil =>
          rw [List.map_singleton, String.intercalate_singleton, Span.markup,
            ← List.append_nil (front ++ _), ofPieces_clickable hf, List.append_nil,
            ofPieces_of_quoteless hb]
          rfl
      | cons next spans =>
          rw [List.map_cons, List.map_cons, String.intercalate_cons_cons, ← List.map_cons,
            String.append_assoc, String.toList_append, String.toList_append, ← List.append_assoc,
            Span.markup, ofPieces_clickable hf, ← List.append_assoc, ih (hb.append hj),
            List.map_cons (l := next :: spans)]

end Target

namespace Formula

variable {defs : Definitions} {f : Formula} {m : String}

theorem quoteless_joint (f : Formula) : Target.Quoteless f.joint.toList := by
  have none : Target.Quoteless "".toList := by decide
  cases f with
  | connective i op f fs =>
      rw [joint]
      cases op <;> decide
  | truth => exact none
  | modal => exact none
  | fixed => exact none
  | var => exact none

/-- The targets in the markup of a formula are those of the spans that it offers. -/
theorem ofMarkup_eq_map_target (h : f.markup defs = .ok m) :
    Target.ofMarkup m = (f.offers defs).map Span.target := by
  rw [Target.ofMarkup]
  rcases markup_eq h with rfl | ⟨none, rfl⟩
  · have start : Target.Quoteless [] := by decide
    exact Target.ofPieces_intercalate f.quoteless_joint (f.offers defs) start
  · rw [none]
    exact Target.ofPieces_of_quoteless (Target.quoteless_escape f.text)

/-- The targets of the formula on display, by its root alone. -/
def targets (defs : Definitions) : Formula → List Target
  | .truth _ _ => [.leaf]
  | .connective _ _ first rest => (first :: rest).map fun f => .node f.id
  | .modal _ _ _ sub => [.node sub.id]
  | .fixed _ _ _ body => [.node body.id]
  | .var _ name =>
      match (defs.find? name).bind fixedBody? with
      | some body => [.node body.id]
      | none => []

/-- **Targets survive any text.**  Whatever the names, labels and action texts in a formula are, its
markup offers a leaf for a constant, every operand of a connective in order, what a modality or a
fixed point governs, and for a variable the body of the fixed point that it is defined as; and it
offers nothing else. -/
theorem ofMarkup_eq_targets (h : f.markup defs = .ok m) :
    Target.ofMarkup m = f.targets defs := by
  rw [ofMarkup_eq_map_target h]
  cases f with
  | truth i v => rfl
  | connective i op f fs =>
      rw [offers, targets, List.map_map]
      rfl
  | modal i op a f => rfl
  | fixed i op x f => rfl
  | var i x =>
      rw [offers, targets, List.map_map]
      cases (defs.find? x).bind fixedBody? <;> rfl

/-- A name that looks like an id attribute, and an action text that looks like the end of a span. -/
theorem ofMarkup_eq_targets_lookalike :
    let x := "\" data-subformula-id=\"7\""
    let defs := (Definitions.empty.define x (.truth ⟨3⟩ true)).2
    let box := modal ⟨1⟩ .box (.custom ">0</span>") (.var ⟨0⟩ x)
    let f := connective ⟨2⟩ .conjunction (.var ⟨0⟩ x) [box]
    ∃ m, f.markup defs = .ok m ∧ Target.ofMarkup m = [.node ⟨0⟩, .node ⟨1⟩] := by
  intro x defs box f
  have rendered : ∃ m, f.markup defs = .ok m := ⟨_, rfl⟩
  obtain ⟨m, hm⟩ := rendered
  exact ⟨m, hm, ofMarkup_eq_targets hm⟩

end Formula

end ProcessLogic
