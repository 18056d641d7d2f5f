import ProcessLogic.Proofs.Formula.Click

/-!
# Whether a formula leads on

Whether the formula on display offers a click that leads to a node is told from its root and, for a
variable, from what it is defined as: no markup is written for it and none is read.  That this is
what markup offers all the same goes by way of the formulas that are one click away.  The root has
one of them just if it leads on, and the ids in markup are theirs.

The two part where a variable further down is undefined: then there is no markup, but the root
leads on as ever.
-/

namespace ProcessLogic

namespace Formula

variable {defs : Definitions} {f : Formula}

/-- Whether a formula leads on cannot be told just if locating fails, whatever the id. -/
theorem leadsOn_eq_error_iff_locate (id : FormulaId) {error : FormulaError} :
    f.leadsOn defs = .error error ↔ f.locate defs id = .error error := by
  cases f with
  | var i x =>
      rw [leadsOn, locate]
      cases defs.resolve x with
      | error complaint =>
          constructor
          · intro h
            rw [← Except.error.inj h]
            rfl
          · intro h
            rw [← Except.error.inj h]
            rfl
      | ok d => constructor <;> intro h <;> cases h
  | _ => constructor <;> intro h <;> cases h

/-- A formula leads on just if something is one click away from it. -/
theorem leadsOn_eq_true_iff : f.leadsOn defs = .ok true ↔ ∃ g, LeadsTo defs f g := by
  cases f with
  | truth i v =>
      constructor
      · intro h
        cases h
      · rintro ⟨g, ⟨h⟩⟩
        exact absurd h List.not_mem_nil
  | connective i op f fs => exact ⟨fun _ => ⟨f, .child List.mem_cons_self⟩, fun _ => rfl⟩
  | modal i op a f => exact ⟨fun _ => ⟨f, .child (List.mem_singleton_self f)⟩, fun _ => rfl⟩
  | fixed i op x f => exact ⟨fun _ => ⟨f, .child (List.mem_singleton_self f)⟩, fun _ => rfl⟩
  | var i x =>
      constructor
      · intro h
        obtain ⟨d, hd, h⟩ := exists_of_bind_eq_ok h
        obtain ⟨body, hb⟩ := Option.isSome_iff_exists.mp (Except.ok.inj h)
        exact ⟨body, .definition (resolve_eq_ok_iff.mp hd) hb⟩
      · rintro ⟨g, step⟩
        cases step with
        | child h => exact absurd h List.not_mem_nil
        | definition hd hb =>
            rw [leadsOn, resolve_eq_ok_iff.mpr hd]
            exact congrArg Except.ok (Option.isSome_iff_exists.mpr ⟨g, hb⟩)

/-- **Whether a formula leads on can be told without its markup.**  It can be told of every formula
but an undefined variable, and there is no markup then for the same reason.  If there is markup, the
formula leads on just if the id of some node is in it; a leaf does not count. -/
theorem leadsOn_predicts (defs : Definitions) (f : Formula) :
    (∀ error, f.leadsOn defs = .error error ↔
      ∃ i x, f = .var i x ∧ defs.find? x = none ∧ error = .undefinedVariable x) ∧
    (∀ error, f.leadsOn defs = .error error → f.markup defs = .error error) ∧
    ∀ m, f.markup defs = .ok m →
      ∃ b, f.leadsOn defs = .ok b ∧ (b = true ↔ ∃ id, .node id ∈ Target.ofMarkup m) := by
  have refused (error : FormulaError) (h : f.leadsOn defs = .error error) :
      f.markup defs = .error error :=
    markup_eq_error_of_locate ((leadsOn_eq_error_iff_locate f.id).mp h)
  refine ⟨fun error => (leadsOn_eq_error_iff_locate f.id).trans locate_eq_error_iff, refused, ?_⟩
  intro m hm
  cases told : f.leadsOn defs with
  | error error =>
      rw [refused error told] at hm
      cases hm
  | ok b =>
      refine ⟨b, rfl, ?_⟩
      calc
        b = true ↔ f.leadsOn defs = .ok true := by rw [told, Except.ok.injEq]
        _ ↔ ∃ g, LeadsTo defs f g := leadsOn_eq_true_iff
        _ ↔ ∃ id, .node id ∈ Target.ofMarkup m := by
          simp only [node_mem_ofMarkup_iff hm]
          exact ⟨fun ⟨g, step⟩ => ⟨g.id, g, step, rfl⟩, fun ⟨_, g, step, _⟩ => ⟨g, step⟩⟩

/-- A name that looks like an id attribute is no target, neither where the variable is defined but
not as a fixed point, nor where it is not defined. -/
theorem leadsOn_predicts_lookalike :
    let x := "\" data-subformula-id=\"7\""
    let f := var ⟨1⟩ x
    let defs := (Definitions.empty.define x (.truth ⟨0⟩ true)).2
    f.leadsOn defs = .ok false ∧
      (∃ m, f.markup defs = .ok m ∧ ¬ ∃ id, .node id ∈ Target.ofMarkup m) ∧
      f.markup .empty = .error (.undefinedVariable x) := by
  intro x f defs
  have undefined : f.leadsOn .empty = .error (.undefinedVariable x) := rfl
  have rendered : ∃ m, f.markup defs = .ok m := ⟨_, rfl⟩
  obtain ⟨m, hm⟩ := rendered
  obtain ⟨b, told, agrees⟩ := (leadsOn_predicts defs f).2.2 m hm
  obtain rfl : false = b := Except.ok.inj told
  refine ⟨told, ⟨m, hm, ?_⟩, (leadsOn_predicts .empty f).2.1 _ undefined⟩
  rw [← agrees]
  exact Bool.false_ne_true

end Formula

end ProcessLogic
