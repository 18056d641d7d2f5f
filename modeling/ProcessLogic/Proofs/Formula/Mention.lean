import ProcessLogic.Proofs.Formula.Preorder
import ProcessLogic.Proofs.Formula.Span

/-!
# The variables that occur in a formula

Markup looks up every variable it meets, from left to right, and no definition's own variables.  So
whether there is markup for a formula depends on the names in it alone, and the first of them that
is not defined is what it fails at: `plain_eq_require`, `exists_markup_eq_require`, and
`markup_first_undefined`, which speaks of the variables themselves.
-/

namespace ProcessLogic

namespace Definitions

variable (defs : Definitions) {α β : Type}

/-- The first of some names that has no definition. -/
def missing? (names : List String) : Option String :=
  names.find? fun x => (defs.find? x).isNone

/-- A result that there is only if some names are all defined. -/
def require (names : List String) (a : α) : Except FormulaError α :=
  match defs.missing? names with
  | some x => .error (.undefinedVariable x)
  | none => .ok a

/-- Requirements add up, those that come first counting first. -/
theorem require_bind {xs ys : List String} {a : α} {b : β} {next : α → Except FormulaError β}
    (h : next a = defs.require ys b) :
    (defs.require xs a >>= next) = defs.require (xs ++ ys) b := by
  rw [require, require, missing?, missing?, List.find?_append]
  cases xs.find? fun x => (defs.find? x).isNone with
  | some x => rfl
  | none => exact h

theorem require_bind_pure (xs : List String) (a : α) (g : α → β) :
    (defs.require xs a >>= fun a => pure (g a)) = defs.require xs (g a) := by
  have all : (defs.require xs a >>= fun a => pure (g a)) = defs.require (xs ++ []) (g a) :=
    defs.require_bind rfl
  rwa [List.append_nil] at all

theorem resolve_bind {x : String} {b : β} {next : Formula → Except FormulaError β}
    (h : ∀ d, defs.find? x = some d → next d = .ok b) :
    (defs.resolve x >>= next) = defs.require [x] b := by
  rw [resolve, require, missing?, List.find?_singleton]
  cases hd : defs.find? x with
  | none => rfl
  | some d => exact h d hd

variable {defs} {other : Definitions}

theorem require_eq_ok_iff {xs : List String} {a b : α} :
    defs.require xs a = .ok b ↔ (∀ x ∈ xs, ∃ d, defs.find? x = some d) ∧ a = b := by
  have defined : defs.missing? xs = none ↔ ∀ x ∈ xs, ∃ d, defs.find? x = some d := by
    rw [missing?, List.find?_eq_none]
    simp [← Option.ne_none_iff_exists']
  rw [require, ← defined]
  cases defs.missing? xs with
  | some x => simp
  | none => simp

theorem require_eq_error_iff {xs : List String} {a : α} {error : FormulaError} :
    defs.require xs a = .error error ↔
      ∃ x, defs.missing? xs = some x ∧ error = .undefinedVariable x := by
  rw [require]
  cases defs.missing? xs with
  | some x => simp [eq_comm]
  | none => simp

/-- Which name is missing first depends on what is defined, and not on what it is defined as. -/
theorem missing?_congr {xs : List String}
    (h : ∀ x ∈ xs, (∃ d, other.find? x = some d) ↔ ∃ d, defs.find? x = some d) :
    other.missing? xs = defs.missing? xs := by
  induction xs with
  | nil => rfl
  | cons x xs ih =>
      obtain ⟨first, rest⟩ := List.forall_mem_cons.mp h
      have same : (other.find? x).isNone = (defs.find? x).isNone := by
        rw [Bool.eq_iff_iff, Option.isNone_iff_eq_none, Option.isNone_iff_eq_none,
          Option.eq_none_iff_forall_ne_some, Option.eq_none_iff_forall_ne_some, ← not_exists,
          ← not_exists, first]
      have later : xs.find? (fun y => (other.find? y).isNone) =
          xs.find? fun y => (defs.find? y).isNone := ih rest
      rw [missing?, missing?, List.find?_cons, List.find?_cons, same, later]

end Definitions

namespace Formula

/-- The name of a variable. -/
def varName? : Formula → Option String
  | .var _ x => some x
  | _ => none

/-- The names of the variables that occur in a formula, at any depth, from left to right. -/
def mentioned (f : Formula) : List String := f.preorder.filterMap varName?

theorem mentioned_eq (f : Formula) :
    f.mentioned = f.varName?.toList ++ f.children.flatMap mentioned := by
  rw [mentioned, preorder_eq, List.filterMap_cons, List.filterMap_flatMap]
  cases f.varName? <;> rfl

@[simp] theorem mentioned_connective (i : FormulaId) (op : Connective) (f : Formula)
    (fs : List Formula) :
    (connective i op f fs).mentioned = f.mentioned ++ fs.flatMap mentioned := by
  rw [mentioned_eq]
  rfl

@[simp] theorem mentioned_modal (i : FormulaId) (op : Modality) (a : Actions) (f : Formula) :
    (modal i op a f).mentioned = f.mentioned := by
  rw [mentioned_eq]
  exact List.flatMap_singleton mentioned f

@[simp] theorem mentioned_fixed (i : FormulaId) (op : FixedPoint) (x : String) (f : Formula) :
    (fixed i op x f).mentioned = f.mentioned := by
  rw [mentioned_eq]
  exact List.flatMap_singleton mentioned f

@[simp] theorem mentioned_var (i : FormulaId) (x : String) : (var i x).mentioned = [x] := by
  rw [mentioned_eq]
  rfl

theorem varName?_eq_some_iff {f : Formula} {x : String} :
    f.varName? = some x ↔ ∃ i, f = var i x := by
  cases f <;> simp [varName?]

theorem mem_mentioned_iff {f : Formula} {x : String} :
    x ∈ f.mentioned ↔ ∃ i, var i x ∈ f.preorder := by
  rw [mentioned, List.mem_filterMap]
  constructor
  · rintro ⟨g, hg, named⟩
    obtain ⟨i, rfl⟩ := varName?_eq_some_iff.mp named
    exact ⟨i, hg⟩
  · rintro ⟨i, hi⟩
    exact ⟨var i x, hi, rfl⟩

theorem mentioned_subset_of_child {f g : Formula} (hg : g ∈ f.children) :
    g.mentioned ⊆ f.mentioned := by
  intro x hx
  rw [mentioned_eq f]
  exact List.mem_append_right _ (List.mem_flatMap.mpr ⟨g, hg, hx⟩)

/-! ### What markup requires -/

variable {defs : Definitions} {op : Connective} {fs : List Formula}

theorem plainOperands_eq_require
    (h : ∀ f ∈ fs, f.plain defs = defs.require f.mentioned (escape f.text)) :
    plainOperands defs op fs = defs.require (fs.flatMap mentioned)
      (fs.map fun f => parenthesize (op.wraps f) (escape f.text)) := by
  induction fs with
  | nil => rfl
  | cons f fs ih =>
      obtain ⟨hf, hfs⟩ := List.forall_mem_cons.mp h
      rw [plainOperands, hf, ih hfs, List.flatMap_cons, List.map_cons]
      exact defs.require_bind (defs.require_bind_pure _ _ _)

/-- Below the root, a formula is written if all variables in it are defined. -/
theorem plain_eq_require (f : Formula) :
    f.plain defs = defs.require f.mentioned (escape f.text) := by
  induction f using Formula.induction with
  | truth i v =>
      rw [plain, text_truth, escape_truthText]
      rfl
  | connective i op f fs ihf ihfs =>
      rw [plain, ihf, plainOperands_eq_require ihfs, mentioned_connective, text_connective,
        escape_intercalate, escape_separator, List.map_map]
      simp only [Function.comp_def, escape_parenthesize, List.map_cons]
      refine defs.require_bind ?_
      exact defs.require_bind_pure _ _ _
  | modal i op a f ih =>
      rw [plain, ih, mentioned_modal, text_modal, escape_append, escape_parenthesize]
      exact defs.require_bind_pure _ _ _
  | fixed i op x f ih =>
      rw [plain, ih, mentioned_fixed, text_fixed, escape_append, escape_append, escape_binder,
        escape_parenthesize]
      exact defs.require_bind_pure _ _ _
  | var i x =>
      rw [plain, text_var, mentioned_var]
      exact defs.resolve_bind fun _ _ => rfl

theorem spans_eq_require (op : Connective) (fs : List Formula) :
    spans defs op fs = defs.require (fs.flatMap mentioned) (fs.map fun f =>
      (Target.node f.id).clickable (parenthesize (op.wraps f) (escape f.text))) := by
  induction fs with
  | nil => rfl
  | cons f fs ih =>
      rw [spans, plain_eq_require, ih, List.flatMap_cons, List.map_cons]
      exact defs.require_bind (defs.require_bind_pure _ _ _)

/-- There is markup for a formula if all variables in it are defined. -/
theorem exists_markup_eq_require (f : Formula) :
    ∃ m, f.markup defs = defs.require f.mentioned m := by
  cases f with
  | truth i v => exact ⟨_, rfl⟩
  | connective i op f fs =>
      rw [markup, spans_eq_require, mentioned_connective, ← List.flatMap_cons]
      exact ⟨_, defs.require_bind_pure _ _ _⟩
  | modal i op a f =>
      rw [markup, plain_eq_require, mentioned_modal]
      exact ⟨_, defs.require_bind_pure _ _ _⟩
  | fixed i op x f =>
      rw [markup, plain_eq_require, mentioned_fixed]
      exact ⟨_, defs.require_bind_pure _ _ _⟩
  | var i x =>
      rw [markup, mentioned_var]
      cases hb : (defs.find? x).bind fixedBody? with
      | none =>
          refine ⟨escape x, defs.resolve_bind fun d hd => ?_⟩
          rw [hd, Option.bind_some] at hb
          rw [hb]
          rfl
      | some body =>
          refine ⟨(Target.node body.id).clickable (escape x), defs.resolve_bind fun d hd => ?_⟩
          rw [hd, Option.bind_some] at hb
          rw [hb]
          rfl

theorem exists_markup_iff {f : Formula} :
    (∃ m, f.markup defs = .ok m) ↔ ∀ x ∈ f.mentioned, ∃ d, defs.find? x = some d := by
  obtain ⟨m, hm⟩ : ∃ m, f.markup defs = defs.require f.mentioned m := f.exists_markup_eq_require
  rw [hm]
  constructor
  · rintro ⟨m', h⟩
    exact (Definitions.require_eq_ok_iff.mp h).1
  · intro h
    exact ⟨m, Definitions.require_eq_ok_iff.mpr ⟨h, rfl⟩⟩

/-- What there is markup for is made up of parts that there is markup for. -/
theorem exists_markup_of_child {f g : Formula} (h : ∃ m, f.markup defs = .ok m)
    (hg : g ∈ f.children) : ∃ m, g.markup defs = .ok m :=
  exists_markup_iff.mpr fun x hx => exists_markup_iff.mp h x (mentioned_subset_of_child hg hx)

/-! ### What is missing -/

variable {f : Formula}

/-- The name that is missing first is that of the first undefined variable on the walk through the
formula. -/
theorem missing?_mentioned_eq_some_iff {x : String} :
    defs.missing? f.mentioned = some x ↔
      ∃ i before after, f.preorder = before ++ var i x :: after ∧
        defs.find? x = none ∧
        ∀ j y, var j y ∈ before → ∃ d, defs.find? y = some d := by
  rw [Definitions.missing?, mentioned, List.find?_filterMap, Option.bind_eq_some_iff]
  constructor
  · rintro ⟨g, found, named⟩
    obtain ⟨i, rfl⟩ := varName?_eq_some_iff.mp named
    obtain ⟨undefined, before, after, split, earlier⟩ := List.find?_eq_some_iff_append.mp found
    refine ⟨i, before, after, split, Option.isNone_iff_eq_none.mp undefined, fun j y hy => ?_⟩
    cases hd : defs.find? y with
    | some d => exact ⟨d, rfl⟩
    | none =>
        have passed := earlier _ hy
        rw [varName?, Option.any_some, hd] at passed
        cases passed
  · rintro ⟨i, before, after, split, undefined, earlier⟩
    refine ⟨var i x, List.find?_eq_some_iff_append.mpr ⟨Option.isNone_iff_eq_none.mpr undefined,
      before, after, split, fun g hg => ?_⟩, rfl⟩
    cases g with
    | var j y =>
        obtain ⟨d, hd⟩ := earlier j y hg
        rw [varName?, Option.any_some, hd]
        rfl
    | _ => rfl

/-- There is markup for a formula or a complaint about the name that is missing first. -/
theorem markup_eq_error_iff {error : FormulaError} :
    f.markup defs = .error error ↔
      ∃ x, defs.missing? f.mentioned = some x ∧ error = .undefinedVariable x := by
  obtain ⟨m, hm⟩ : ∃ m, f.markup defs = defs.require f.mentioned m := f.exists_markup_eq_require
  rw [hm, Definitions.require_eq_error_iff]

/-- **Markup fails at the first undefined variable.**  There is markup for a formula if and only if
every variable that occurs in it is defined, at whatever depth and whether a fixed point around it
binds it or not.  Otherwise the complaint is about the first undefined one on the walk through the
formula.  What the variables are defined as makes no difference: by any definitions of the same
variables there is markup if there was, and the same complaint if there was one. -/
theorem markup_first_undefined (defs : Definitions) (f : Formula) :
    ((∃ m, f.markup defs = .ok m) ↔
        ∀ i x, var i x ∈ f.preorder → ∃ d, defs.find? x = some d) ∧
      (∀ error, f.markup defs = .error error ↔
        ∃ i x before after, f.preorder = before ++ var i x :: after ∧
          defs.find? x = none ∧
          (∀ j y, var j y ∈ before → ∃ d, defs.find? y = some d) ∧
          error = .undefinedVariable x) ∧
      ∀ other : Definitions,
        (∀ i x, var i x ∈ f.preorder →
          ((∃ d, other.find? x = some d) ↔ ∃ d, defs.find? x = some d)) →
        ((∃ m, f.markup other = .ok m) ↔ ∃ m, f.markup defs = .ok m) ∧
          ∀ error, f.markup other = .error error ↔ f.markup defs = .error error := by
  refine ⟨?defined, fun error => ?first, fun other same => ?_⟩
  case defined =>
    rw [exists_markup_iff]
    constructor
    · intro h i x hx
      exact h x (mem_mentioned_iff.mpr ⟨i, hx⟩)
    · intro h x hx
      obtain ⟨i, hi⟩ := mem_mentioned_iff.mp hx
      exact h i x hi
  case first =>
    rw [markup_eq_error_iff]
    constructor
    · rintro ⟨x, missing, rfl⟩
      obtain ⟨i, before, after, split, undefined, earlier⟩ :=
        missing?_mentioned_eq_some_iff.mp missing
      exact ⟨i, x, before, after, split, undefined, earlier, rfl⟩
    · rintro ⟨i, x, before, after, split, undefined, earlier, rfl⟩
      exact ⟨x, missing?_mentioned_eq_some_iff.mpr ⟨i, before, after, split, undefined, earlier⟩,
        rfl⟩
  have mentioned_same : ∀ x ∈ f.mentioned,
      (∃ d, other.find? x = some d) ↔ ∃ d, defs.find? x = some d := by
    intro x hx
    obtain ⟨i, hi⟩ := mem_mentioned_iff.mp hx
    exact same i x hi
  constructor
  · rw [exists_markup_iff, exists_markup_iff]
    exact forall₂_congr mentioned_same
  · intro error
    rw [markup_eq_error_iff, markup_eq_error_iff, Definitions.missing?_congr mentioned_same]

/-- The variable `X` is undefined, though a fixed point binds it, and so is `Z` after it.  The `W`
in the definition of `Y` is undefined too, but it is not met. -/
theorem markup_first_undefined_bound :
    let w := var ⟨0⟩ "W"
    let y := var ⟨1⟩ "Y"
    let x := var ⟨2⟩ "X"
    let z := var ⟨3⟩ "Z"
    let f := fixed ⟨6⟩ .least "X" (connective ⟨5⟩ .conjunction y [modal ⟨4⟩ .box .any x, z])
    let defs : Definitions := ⟨[("Y", w)]⟩
    let other : Definitions := ⟨[("Y", truth ⟨7⟩ true)]⟩
    (∀ i n, var i n ∈ f.preorder →
        ((∃ d, other.find? n = some d) ↔ ∃ d, defs.find? n = some d)) ∧
      f.markup defs = .error (.undefinedVariable "X") ∧
      f.markup other = .error (.undefinedVariable "X") := by
  intro w y x z f defs other
  have walk : f.preorder =
      [f, connective ⟨5⟩ .conjunction y [modal ⟨4⟩ .box .any x, z], y, modal ⟨4⟩ .box .any x] ++
        x :: [z] := rfl
  have same : ∀ i n, var i n ∈ f.preorder →
      ((∃ d, other.find? n = some d) ↔ ∃ d, defs.find? n = some d) := by
    intro i n _
    by_cases h : "Y" = n
    · subst h
      exact ⟨fun _ => ⟨w, rfl⟩, fun _ => ⟨truth ⟨7⟩ true, rfl⟩⟩
    · simp [defs, other, Definitions.find?, Definitions.get, h]
  obtain ⟨-, first, sameError⟩ := markup_first_undefined defs f
  have complaint : f.markup defs = .error (.undefinedVariable "X") := by
    refine (first _).mpr ⟨⟨2⟩, "X", _, _, walk, rfl, ?_, rfl⟩
    intro j n hn
    obtain ⟨-, rfl⟩ : j = ⟨1⟩ ∧ n = "Y" := by simpa [f, y, x] using hn
    exact ⟨w, rfl⟩
  exact ⟨same, complaint, ((sameError other same).2 _).mpr complaint⟩

end Formula

end ProcessLogic
