import ProcessLogic.Formula.Markup
import ProcessLogic.Proofs.Except

/-!
# Markup as a row of spans

The markup of a formula on display is put together from the markup of its parts, and each part from
its own parts.  Escaping distributes over all of this, so below the root nothing remains of it but
the escaped text of a formula, and the whole is a row of spans with the separator of the root
between them.  `Formula.offers` are these spans, each with the node it was written for.

A variable that is no fixed point offers nothing, and is the only formula whose markup is plain
text.
-/

namespace ProcessLogic

/-- A clickable piece of markup: the node a click on it leads to, if any, and the text shown. -/
structure Span where
  node : Option Formula
  text : String

namespace Span

/-- What the id attribute of the span says. -/
def target (s : Span) : Target :=
  match s.node with
  | some f => .node f.id
  | none => .leaf

def markup (s : Span) : String := s.target.clickable (escape s.text)

end Span

namespace Formula

variable (defs : Definitions)

/-- The spans of the formula on display, from left to right. -/
def offers : Formula → List Span
  | .truth _ value => [⟨none, truthText value⟩]
  | .connective _ op first rest =>
      (first :: rest).map fun f => ⟨some f, parenthesize (op.wraps f) f.text⟩
  | f@(.modal _ _ _ sub) => [⟨some sub, f.text⟩]
  | f@(.fixed _ _ _ body) => [⟨some body, f.text⟩]
  | .var _ name =>
      ((defs.find? name).bind fixedBody?).toList.map fun body => ⟨some body, name⟩

/-- What stands between two spans. -/
def joint : Formula → String
  | .connective _ op _ _ => op.separator
  | .truth _ _ | .modal _ _ _ _ | .fixed _ _ _ _ | .var _ _ => ""

/-! ### Escaping in parts -/

theorem escape_parenthesize (wrap : Bool) (text : String) :
    escape (parenthesize wrap text) = parenthesize wrap (escape text) := by
  cases wrap with
  | false => rfl
  | true =>
      rw [parenthesize_true, parenthesize_true, escape_append, escape_append]
      rfl

theorem escape_intercalate (sep : String) (parts : List String) :
    escape (sep.intercalate parts) = (escape sep).intercalate (parts.map escape) := by
  induction parts with
  | nil => rfl
  | cons part parts ih =>
      cases parts with
      | nil => simp
      | cons next parts =>
          rw [String.intercalate_cons_cons, escape_append, escape_append, ih]
          rw [List.map_cons, List.map_cons, List.map_cons, String.intercalate_cons_cons]

theorem escape_separator (op : Connective) : escape op.separator = op.separator := by
  cases op <;> rfl

theorem escape_binder (op : FixedPoint) : escape op.binder = op.binder := by
  cases op <;> rfl

theorem escape_truthText (value : Bool) : escape (truthText value) = truthText value := by
  cases value <;> rfl

/-! ### Below the root -/

variable {defs}

theorem plainOperands_eq {op : Connective} {fs : List Formula} {parts : List String}
    (plain_eq : ∀ f ∈ fs, ∀ m, f.plain defs = .ok m → m = escape f.text)
    (h : plainOperands defs op fs = .ok parts) :
    parts = fs.map fun f => escape (parenthesize (op.wraps f) f.text) := by
  induction fs generalizing parts with
  | nil => exact (Except.ok.inj h).symm
  | cons f fs ih =>
      rw [plainOperands] at h
      obtain ⟨inner, hf, h⟩ := exists_of_bind_eq_ok h
      obtain ⟨others, hfs, h⟩ := exists_of_bind_eq_ok h
      cases h
      rw [plain_eq f (by simp) inner hf, ih (fun g hg => plain_eq g (by simp [hg])) hfs,
        List.map_cons, escape_parenthesize]

/-- Below the root, markup is escaped text and nothing else. -/
theorem plain_eq_escape_text {f : Formula} {m : String} (h : f.plain defs = .ok m) :
    m = escape f.text := by
  induction f using Formula.induction generalizing m with
  | truth i v =>
      cases h
      rw [text_truth, escape_truthText]
  | connective i op f fs ihf ihfs =>
      rw [plain] at h
      obtain ⟨inner, hf, h⟩ := exists_of_bind_eq_ok h
      obtain ⟨others, hfs, h⟩ := exists_of_bind_eq_ok h
      cases h
      rw [text_connective, escape_intercalate, escape_separator, ihf hf,
        plainOperands_eq (fun g hg m => ihfs g hg) hfs, List.map_map, ← escape_parenthesize]
      rfl
  | modal i op a f ih =>
      rw [plain] at h
      obtain ⟨inner, hf, h⟩ := exists_of_bind_eq_ok h
      cases h
      rw [text_modal, escape_append, escape_parenthesize, ih hf]
  | fixed i op x f ih =>
      rw [plain] at h
      obtain ⟨inner, hf, h⟩ := exists_of_bind_eq_ok h
      cases h
      rw [text_fixed, escape_append, escape_append, escape_binder, escape_parenthesize, ih hf]
  | var i x =>
      rw [plain] at h
      obtain ⟨definition, -, h⟩ := exists_of_bind_eq_ok h
      cases h
      rfl

/-! ### The root -/

theorem spans_eq {op : Connective} {fs : List Formula} {parts : List String}
    (h : spans defs op fs = .ok parts) :
    parts = fs.map fun f => (Span.mk (some f) (parenthesize (op.wraps f) f.text)).markup := by
  induction fs generalizing parts with
  | nil => exact (Except.ok.inj h).symm
  | cons f fs ih =>
      rw [spans] at h
      obtain ⟨inner, hf, h⟩ := exists_of_bind_eq_ok h
      obtain ⟨others, hfs, h⟩ := exists_of_bind_eq_ok h
      cases h
      rw [plain_eq_escape_text hf, ih hfs, List.map_cons, ← escape_parenthesize]
      rfl

theorem resolve_eq_ok_iff {name : String} {f : Formula} :
    defs.resolve name = .ok f ↔ defs.find? name = some f := by
  rw [Definitions.resolve]
  cases defs.find? name with
  | none => simp
  | some g => simp

/-- What the markup of a formula looks like, operator by operator. -/
inductive Rendering (defs : Definitions) : Formula → String → Prop
  | truth (i : FormulaId) (v : Bool) :
      Rendering defs (.truth i v) (Target.leaf.clickable (truthText v))
  /-- Every operand is a span of its own, with its parentheses inside. -/
  | connective (i : FormulaId) (op : Connective) (f : Formula) (fs : List Formula) :
      Rendering defs (.connective i op f fs)
        (op.separator.intercalate ((f :: fs).map fun g =>
          (Target.node g.id).clickable (parenthesize (op.wraps g) (escape g.text))))
  | modal (i : FormulaId) (op : Modality) (a : Actions) (f : Formula) :
      Rendering defs (.modal i op a f)
        ((Target.node f.id).clickable (escape (Formula.modal i op a f).text))
  | fixed (i : FormulaId) (op : FixedPoint) (x : String) (f : Formula) :
      Rendering defs (.fixed i op x f)
        ((Target.node f.id).clickable (escape (Formula.fixed i op x f).text))
  /-- A variable that is defined as a fixed point leads to the body of it. -/
  | bound (i : FormulaId) {x : String} {d b : Formula} (hd : defs.find? x = some d)
      (hb : d.fixedBody? = some b) :
      Rendering defs (.var i x) ((Target.node b.id).clickable (escape x))
  | free (i : FormulaId) {x : String} {d : Formula} (hd : defs.find? x = some d)
      (hb : d.fixedBody? = none) : Rendering defs (.var i x) (escape x)

theorem rendering_of_markup {f : Formula} {m : String} (h : f.markup defs = .ok m) :
    Rendering defs f m := by
  cases f with
  | truth i v =>
      cases h
      exact .truth i v
  | connective i op f fs =>
      rw [markup] at h
      obtain ⟨parts, hs, h⟩ := exists_of_bind_eq_ok h
      cases h
      rw [spans_eq hs]
      simp only [Span.markup, escape_parenthesize]
      exact .connective i op f fs
  | modal i op a f =>
      rw [markup] at h
      obtain ⟨inner, hf, h⟩ := exists_of_bind_eq_ok h
      cases h
      rw [plain_eq_escape_text hf, ← escape_parenthesize, ← escape_append, ← text_modal]
      exact .modal i op a f
  | fixed i op x f =>
      rw [markup] at h
      obtain ⟨inner, hf, h⟩ := exists_of_bind_eq_ok h
      cases h
      rw [plain_eq_escape_text hf, ← escape_parenthesize, ← escape_binder, ← escape_append,
        ← escape_append, ← text_fixed]
      exact .fixed i op x f
  | var i x =>
      rw [markup] at h
      obtain ⟨definition, hd, h⟩ := exists_of_bind_eq_ok h
      rw [resolve_eq_ok_iff] at hd
      cases hb : definition.fixedBody? with
      | some body =>
          rw [hb] at h
          cases h
          exact .bound i hd hb
      | none =>
          rw [hb] at h
          cases h
          exact .free i hd hb

/-- The markup of a formula on display is the row of spans that it offers; if it offers none, it is
escaped text. -/
theorem markup_eq {f : Formula} {m : String} (h : f.markup defs = .ok m) :
    m = f.joint.intercalate ((f.offers defs).map Span.markup) ∨
      f.offers defs = [] ∧ m = escape f.text := by
  cases rendering_of_markup h with
  | truth i v =>
      rw [offers, joint, List.map_singleton, String.intercalate_singleton, Span.markup,
        escape_truthText]
      exact .inl rfl
  | connective i op f fs =>
      rw [offers, joint, List.map_map]
      refine .inl (congrArg op.separator.intercalate (List.map_congr_left fun g _ => ?_))
      rw [← escape_parenthesize]
      rfl
  | modal i op a f => exact .inl (by rw [offers, joint, List.map_singleton]; rfl)
  | fixed i op x f => exact .inl (by rw [offers, joint, List.map_singleton]; rfl)
  | bound i hd hb => exact .inl (by rw [offers, joint, hd, Option.bind_some, hb]; rfl)
  | free i hd hb => exact .inr ⟨by rw [offers, hd, Option.bind_some, hb]; rfl, rfl⟩

end Formula

end ProcessLogic
