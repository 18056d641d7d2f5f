import ProcessLogic.Formula.Locate
import ProcessLogic.Proofs.Formula.History
import ProcessLogic.Proofs.Formula.Mention

/-!
# What a display depends on

Markup looks up all variables of a formula, but of what it finds below the root it uses nothing: a
variable there is written by its name.  Only if the formula is a variable itself does its definition
count, and of this only the body of a fixed point.  The same goes for clicks.

Definitions are never taken back, so once there is markup for a formula there is markup for ever,
and it stays the same unless the variable on display is defined again.
-/

namespace ProcessLogic

namespace Definitions

variable {defs other : Definitions} {α : Type}

theorem require_congr {xs : List String} {a : α}
    (h : ∀ x ∈ xs, (∃ d, other.find? x = some d) ↔ ∃ d, defs.find? x = some d) :
    other.require xs a = defs.require xs a := by
  rw [require, require, missing?_congr h]

/-- What comes of looking up a fixed point depends on its body only, if the body is all that is
used of it. -/
theorem resolve_bind_congr {x : String} {next : Formula → Except FormulaError α}
    (known : (∃ d, other.find? x = some d) ↔ ∃ d, defs.find? x = some d)
    (body : (other.find? x).bind Formula.fixedBody? = (defs.find? x).bind Formula.fixedBody?)
    (used : ∀ d d', d'.fixedBody? = d.fixedBody? → next d' = next d) :
    (other.resolve x >>= next) = defs.resolve x >>= next := by
  rw [resolve, resolve]
  cases hd : defs.find? x with
  | none =>
      have unknown : other.find? x = none := by
        by_contra found
        obtain ⟨d, hd'⟩ := known.mp (Option.ne_none_iff_exists'.mp found)
        rw [hd] at hd'
        cases hd'
      rw [unknown]
  | some d =>
      obtain ⟨d', hd'⟩ := known.mpr ⟨d, hd⟩
      rw [hd, hd', Option.bind_some, Option.bind_some] at body
      rw [hd']
      exact used d d' body

/-! ### Further calls -/

/-- What a call does not define stands for what it stood for. -/
theorem find?_after_of_untouched {calls : List Defining} {x : String}
    (h : ∀ c ∈ calls, c.name ≠ x) : (defs.after calls).find? x = defs.find? x := by
  induction calls using List.reverseRecOn with
  | nil => rfl
  | append_singleton calls c ih =>
      rw [after_append_singleton, find?_call, if_neg (h c (by simp))]
      exact ih fun c' hc' => h c' (List.mem_append_left _ hc')

/-- What is defined stays defined. -/
theorem exists_find?_after {x : String} (calls : List Defining) (h : ∃ d, defs.find? x = some d) :
    ∃ d, (defs.after calls).find? x = some d := by
  induction calls using List.reverseRecOn with
  | nil => exact h
  | append_singleton calls c ih =>
      rw [after_append_singleton, find?_call]
      split
      · exact ⟨_, rfl⟩
      · exact ih

end Definitions

namespace Formula

variable {defs other : Definitions} {f : Formula}

section Congr

variable (defined : ∀ x ∈ f.mentioned, (∃ d, other.find? x = some d) ↔ ∃ d, defs.find? x = some d)
  (root : ∀ i x, f = .var i x →
    (other.find? x).bind fixedBody? = (defs.find? x).bind fixedBody?)

include defined in
/-- Below the root it only counts which variables are defined. -/
theorem plain_congr : f.plain other = f.plain defs := by
  rw [plain_eq_require, plain_eq_require, Definitions.require_congr defined]

include defined root

theorem markup_congr : f.markup other = f.markup defs := by
  cases f with
  | truth i v => rfl
  | connective i op f fs =>
      rw [mentioned_connective, ← List.flatMap_cons] at defined
      rw [markup, markup, spans_eq_require, spans_eq_require, Definitions.require_congr defined]
  | modal i op a f =>
      rw [mentioned_modal] at defined
      rw [markup, markup, plain_congr defined]
  | fixed i op x f =>
      rw [mentioned_fixed] at defined
      rw [markup, markup, plain_congr defined]
  | var i x =>
      rw [markup, markup]
      refine Definitions.resolve_bind_congr (defined x (by simp)) (root i x rfl) fun d d' same => ?_
      rw [same]

theorem locate_congr (id : FormulaId) : f.locate other id = f.locate defs id := by
  cases f with
  | var i x =>
      rw [locate, locate]
      refine Definitions.resolve_bind_congr (defined x (by simp)) (root i x rfl) fun d d' same => ?_
      rw [same]
  | _ => rfl

end Congr

/-- **What a display depends on.**  By any two sets of definitions in which the same variables of a
formula are defined, the formula has the same markup or the same complaint, and every id locates the
same.  Only a variable needs more to be the same: the body of the fixed point that it is defined as,
if it is one.

So once there is markup for a formula, there is markup after any further calls that define names;
and unless the formula is a variable that they define again, it is the same markup, and every id
locates the same. -/
theorem display_congr (f : Formula) (defs : Definitions) :
    (∀ other : Definitions,
      (∀ i x, var i x ∈ f.preorder →
        ((∃ d, other.find? x = some d) ↔ ∃ d, defs.find? x = some d)) →
      (∀ i x, f = var i x →
        (other.find? x).bind fixedBody? = (defs.find? x).bind fixedBody?) →
      f.markup other = f.markup defs ∧ ∀ id, f.locate other id = f.locate defs id) ∧
    ∀ m, f.markup defs = .ok m → ∀ calls : List Defining,
      (∃ m', f.markup (defs.after calls) = .ok m') ∧
      ((∀ i x, f = var i x → ∀ c ∈ calls, c.name ≠ x) →
        f.markup (defs.after calls) = .ok m ∧
          ∀ id, f.locate (defs.after calls) id = f.locate defs id) := by
  refine ⟨fun other same root => ?_, fun m hm calls => ?_⟩
  · have defined : ∀ x ∈ f.mentioned,
        (∃ d, other.find? x = some d) ↔ ∃ d, defs.find? x = some d := by
      intro x hx
      obtain ⟨i, hi⟩ := mem_mentioned_iff.mp hx
      exact same i x hi
    exact ⟨markup_congr defined root, locate_congr defined root⟩
  · have before := exists_markup_iff.mp ⟨m, hm⟩
    have later : ∀ x ∈ f.mentioned, ∃ d, (defs.after calls).find? x = some d :=
      fun x hx => Definitions.exists_find?_after calls (before x hx)
    refine ⟨exists_markup_iff.mpr later, fun untouched => ?_⟩
    have defined : ∀ x ∈ f.mentioned,
        (∃ d, (defs.after calls).find? x = some d) ↔ ∃ d, defs.find? x = some d :=
      fun x hx => iff_of_true (later x hx) (before x hx)
    have root : ∀ i x, f = .var i x →
        ((defs.after calls).find? x).bind fixedBody? = (defs.find? x).bind fixedBody? := by
      intro i x hf
      rw [Definitions.find?_after_of_untouched (untouched i x hf)]
    rw [markup_congr defined root]
    exact ⟨hm, locate_congr defined root⟩

/-- The variable on display is a least fixed point by one set of definitions and a greatest one by
the other, of the same body.  The `Y` that another formula mentions is defined again and again. -/
theorem display_congr_redefined :
    let t := truth ⟨0⟩ true
    let x := var ⟨1⟩ "X"
    let f := modal ⟨3⟩ .diamond .any (var ⟨2⟩ "Y")
    let defs : Definitions := ⟨[("X", fixed ⟨4⟩ .least "X" t), ("Y", t)]⟩
    let other : Definitions := ⟨[("Z", t), ("X", fixed ⟨5⟩ .greatest "X" t)]⟩
    let calls : List Defining := [.fixed .least "Y" x 6, .define "Y" x, .define "X" t]
    x.markup other = x.markup defs ∧
      f.markup (defs.after calls) =
        .ok "<span class=\"hml-subformula\" data-subformula-id=\"2\">&lt;-&gt;Y</span>" := by
  intro t x f defs other calls
  obtain ⟨same, -⟩ := display_congr x defs
  obtain ⟨-, stays⟩ := display_congr f defs
  refine ⟨(same other ?defined ?root).1, ((stays _ ?before calls).2 ?untouched).1⟩
  case defined =>
    intro i n hn
    have same : var i n = x := List.mem_singleton.mp hn
    obtain ⟨-, rfl⟩ := var.inj same
    exact iff_of_true ⟨_, rfl⟩ ⟨_, rfl⟩
  case root =>
    intro i n same
    obtain ⟨-, rfl⟩ := var.inj same
    rfl
  case before => rfl
  case untouched =>
    intro i n same
    exact Formula.noConfusion same

end Formula

end ProcessLogic
