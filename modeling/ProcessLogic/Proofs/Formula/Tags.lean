import ProcessLogic.Proofs.Formula.Scan

/-!
# Markup without its tags

A reader of markup takes what stands between brackets for tags, and shows the rest.  Of the markup
of a formula the rest is the text of the formula, escaped, and the tags are those of its spans: each
span is opened and closed again before the next one is opened.  Nothing that a formula is made of
can add a tag or end one, since escaped text has no brackets.

`Markup.Cut` says what a stretch of markup adds to what is shown and to the tags, whatever comes
behind it.
-/

namespace ProcessLogic

namespace Markup

/-- Markup without its tags: what stands between an opening bracket and the next closing one is left
out, with the brackets. -/
def strip (inside : Bool) : List Char → List Char
  | [] => []
  | c :: rest =>
      if inside then strip (c != '>') rest
      else if c = '<' then strip true rest
      else c :: strip false rest

/-- The tags of markup, without their brackets.  The first argument is what has been read of a tag
that is still open. -/
def scan : Option String → List Char → List String
  | _, [] => []
  | none, c :: rest => if c = '<' then scan (some "") rest else scan none rest
  | some tag, c :: rest => if c = '>' then tag :: scan none rest else scan (some (tag.push c)) rest

/-- What a reader of markup gets to see. -/
def shown (m : String) : String := .ofList (strip false m.toList)

def tags (m : String) : List String := scan none m.toList

/-- A stretch of markup shows some text and has some tags, whatever comes behind it. -/
structure Cut (m text : String) (inner : List String) : Prop where
  strip (rest : List Char) : strip false (m.toList ++ rest) = text.toList ++ strip false rest
  scan (rest : List Char) : scan none (m.toList ++ rest) = inner ++ scan none rest

namespace Cut

variable {m m' text text' : String} {inner inner' : List String}

theorem shown_eq (h : Cut m text inner) : shown m = text := by
  have whole := h.strip []
  rw [List.append_nil] at whole
  rw [shown, whole, Markup.strip, List.append_nil, String.ofList_toList]

theorem tags_eq (h : Cut m text inner) : tags m = inner := by
  have whole := h.scan []
  rw [List.append_nil] at whole
  rw [tags, whole, Markup.scan, List.append_nil]

theorem empty : Cut "" "" [] := ⟨fun _ => rfl, fun _ => rfl⟩

theorem append (h : Cut m text inner) (h' : Cut m' text' inner') :
    Cut (m ++ m') (text ++ text') (inner ++ inner') := by
  constructor
  · intro rest
    rw [String.toList_append, String.toList_append, List.append_assoc, h.strip, h'.strip,
      List.append_assoc]
  · intro rest
    rw [String.toList_append, List.append_assoc, h.scan, h'.scan, List.append_assoc]

theorem strip_of_plain {cs : List Char} (h : Plain cs) (rest : List Char) :
    Markup.strip false (cs ++ rest) = cs ++ Markup.strip false rest := by
  induction cs with
  | nil => rfl
  | cons c cs ih =>
      obtain ⟨hc, hcs⟩ := List.forall_mem_cons.mp h
      rw [List.cons_append, Markup.strip, if_neg Bool.false_ne_true, if_neg hc.1, ih hcs,
        List.cons_append]

theorem scan_of_plain {cs : List Char} (h : Plain cs) (rest : List Char) :
    Markup.scan none (cs ++ rest) = Markup.scan none rest := by
  induction cs with
  | nil => rfl
  | cons c cs ih =>
      obtain ⟨hc, hcs⟩ := List.forall_mem_cons.mp h
      rw [List.cons_append, Markup.scan, if_neg hc.1, ih hcs]

/-- Text without brackets is shown as it is. -/
theorem plain (h : Plain text.toList) : Cut text text [] :=
  ⟨strip_of_plain h, scan_of_plain h⟩

theorem strip_of_open {cs : List Char} (h : '>' ∉ cs) (rest : List Char) :
    Markup.strip true (cs ++ '>' :: rest) = Markup.strip false rest := by
  induction cs with
  | nil => rfl
  | cons c cs ih =>
      have hc : c ≠ '>' := (List.ne_of_not_mem_cons h).symm
      rw [List.cons_append, Markup.strip, if_pos rfl, bne_iff_ne.mpr hc,
        ih (List.not_mem_of_not_mem_cons h)]

theorem scan_of_open {cs : List Char} (h : '>' ∉ cs) (tag : String) (rest : List Char) :
    Markup.scan (some tag) (cs ++ '>' :: rest) = (tag ++ .ofList cs) :: Markup.scan none rest := by
  induction cs generalizing tag with
  | nil =>
      rw [List.nil_append, Markup.scan, if_pos rfl, String.ofList_nil, String.append_empty]
  | cons c cs ih =>
      have hc : c ≠ '>' := (List.ne_of_not_mem_cons h).symm
      have whole : tag.push c ++ .ofList cs = tag ++ .ofList (c :: cs) := by
        rw [← String.toList_inj]
        simp
      rw [List.cons_append, Markup.scan, if_neg hc, ih (List.not_mem_of_not_mem_cons h), whole]

/-- A tag shows nothing. -/
theorem tag (content : String) (h : '>' ∉ content.toList) :
    Cut ("<" ++ content ++ ">") "" [content] := by
  have spelled (rest : List Char) : ("<" ++ content ++ ">").toList ++ rest =
      '<' :: (content.toList ++ '>' :: rest) := by simp
  constructor
  · intro rest
    rw [spelled, Markup.strip, if_neg Bool.false_ne_true, if_pos rfl, strip_of_open h]
    rfl
  · intro rest
    rw [spelled, Markup.scan, if_pos rfl, scan_of_open h, String.empty_append,
      String.ofList_toList]
    rfl

/-- Parts with text between them. -/
theorem intercalate {α : Type} {sep : String} (hs : Plain sep.toList) {part text : α → String}
    {inner : α → List String} {xs : List α} (h : ∀ x ∈ xs, Cut (part x) (text x) (inner x)) :
    Cut (sep.intercalate (xs.map part)) (sep.intercalate (xs.map text)) (xs.flatMap inner) := by
  induction xs with
  | nil => exact empty
  | cons x xs ih =>
      obtain ⟨hx, hxs⟩ := List.forall_mem_cons.mp h
      cases xs with
      | nil =>
          simp only [List.map_singleton, String.intercalate_singleton, List.flatMap_singleton]
          exact hx
      | cons y ys =>
          have front := (hx.append (plain hs)).append (ih hxs)
          rw [List.append_nil] at front
          rw [List.map_cons, List.map_cons, List.map_cons, List.map_cons,
            String.intercalate_cons_cons, String.intercalate_cons_cons]
          exact front

end Cut

/-! ### Spans -/

/-- The tag that opens a span. -/
def opening (t : Target) : String :=
  "span class=\"" ++ Target.spanClass ++ "\" " ++ Target.idAttribute ++ "=\"" ++ t.text ++ "\""

/-- The tag that closes a span. -/
def closing : String := "/span"

theorem clickable_eq_tags (t : Target) (inner : String) :
    t.clickable inner = ("<" ++ opening t ++ ">") ++ inner ++ ("<" ++ closing ++ ">") := by
  have first : ("<span class=\"" : String) = "<" ++ "span class=\"" := rfl
  have last : ("\">" : String) = "\"" ++ ">" := rfl
  have closed : ("</span>" : String) = "<" ++ ("/span" ++ ">") := rfl
  unfold Target.clickable opening closing
  rw [first, last, closed]
  simp only [String.append_assoc]

theorem greater_notMem_opening (t : Target) : '>' ∉ (opening t).toList := by
  have value : '>' ∉ t.text.toList := by
    cases t with
    | leaf => decide
    | node id =>
        rw [Target.toList_text_node]
        intro h
        exact absurd (Decimal.isDigit_of_mem_digits h) (by decide)
  have front : '>' ∉ ("span class=\"" ++ Target.spanClass ++ "\" " ++ Target.idAttribute ++
      "=\"").toList := by decide
  unfold opening
  rw [String.toList_append, String.toList_append]
  intro h
  rcases List.mem_append.mp h with h | h
  · rcases List.mem_append.mp h with h | h
    · exact front h
    · exact value h
  · exact absurd (List.mem_singleton.mp h) (by decide)

/-- A span shows what is inside it, between a tag that opens it and one that closes it. -/
theorem Cut.clickable (t : Target) {inner : String} (h : Plain inner.toList) :
    Cut (t.clickable inner) inner [opening t, closing] := by
  have whole := ((Cut.tag _ (greater_notMem_opening t)).append (.plain h)).append
    (Cut.tag closing (by decide))
  rw [← clickable_eq_tags, String.empty_append, String.append_empty] at whole
  exact whole

end Markup

namespace Formula

open Markup

variable {defs : Definitions} {f : Formula} {m : String}

theorem plain_truthText (v : Bool) : Plain (truthText v).toList := by
  cases v <;> decide

theorem plain_separator (op : Connective) : Plain op.separator.toList := by
  cases op <;> decide

theorem cut_markup (h : f.markup defs = .ok m) :
    Cut m (escape f.text) ((f.offers defs).flatMap fun s => [opening s.target, closing]) := by
  cases rendering_of_markup h with
  | truth i v =>
      rw [text_truth, escape_truthText]
      exact .clickable .leaf (plain_truthText v)
  | connective i op f fs =>
      rw [text_connective, escape_intercalate, escape_separator, List.map_map, offers,
        List.flatMap_map]
      refine Cut.intercalate (plain_separator op) fun g _ => ?_
      rw [← escape_parenthesize]
      exact Cut.clickable _ (plain_escape _)
  | modal i op a f => exact .clickable (.node f.id) (plain_escape _)
  | fixed i op x f => exact .clickable (.node f.id) (plain_escape _)
  | bound i hd hb =>
      rw [offers, hd, Option.bind_some, hb]
      exact .clickable _ (plain_escape _)
  | free i hd hb =>
      rw [offers, hd, Option.bind_some, hb]
      exact .plain (plain_escape _)

/-- **Markup is the text of the formula, escaped, in flat spans.**  The markup of a formula is what
its root makes of it.  Without its tags it is the text of the formula, escaped, which has no bracket
and no quotation mark; and its tags are one that opens a span and one that closes it, for every
target in turn.  So no span is inside another, and no name, label or action text is part of a tag or
makes one. -/
theorem markup_flat (h : f.markup defs = .ok m) :
    Rendering defs f m ∧ shown m = escape f.text ∧
      tags m = (Target.ofMarkup m).flatMap (fun t => [opening t, closing]) ∧
      Plain (shown m).toList := by
  have cut := cut_markup h
  refine ⟨rendering_of_markup h, cut.shown_eq, ?_, ?_⟩
  · rw [cut.tags_eq, ofMarkup_eq_map_target h, List.flatMap_map]
  · rw [cut.shown_eq]
    exact plain_escape f.text

/-- A name that would close its own span and open a tag, and an action text that would be a tag. -/
theorem markup_flat_injection :
    let x := "</span><b title=\""
    let defs := (Definitions.empty.define x (.truth ⟨3⟩ true)).2
    let box := modal ⟨1⟩ .box (.custom "<br>") (.var ⟨0⟩ x)
    let f := connective ⟨2⟩ .conjunction (.var ⟨0⟩ x) [box]
    ∃ m, f.markup defs = .ok m ∧ shown m = escape f.text ∧
      tags m = [opening (.node ⟨0⟩), closing, opening (.node ⟨1⟩), closing] := by
  intro x defs box f
  have rendered : ∃ m, f.markup defs = .ok m := ⟨_, rfl⟩
  obtain ⟨m, hm⟩ := rendered
  obtain ⟨-, text, spans, -⟩ := markup_flat hm
  refine ⟨m, hm, text, ?_⟩
  rw [spans, ofMarkup_eq_map_target hm]
  rfl

end Formula

end ProcessLogic
