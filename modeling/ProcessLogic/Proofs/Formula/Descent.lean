import ProcessLogic.Proofs.Formula.Click
import ProcessLogic.Proofs.Formula.Mention
import Mathlib.Order.WellFoundedSet

/-!
# Clicking comes to an end

A click on a variable leads into its definition, which may be larger than anything that was on
display before.  So it takes two arguments, one inside the other, to see that clicking ends: unless
definitions are recursive, the definitions that are entered one after the other end at some time, as
there are finitely many of them; and between two of them clicks lead from formulas to their
children.
-/

namespace ProcessLogic

open Relation

namespace Definitions

variable {defs : Definitions} {x y : String}

/-- One name is defined as a fixed point that mentions another. -/
def Uses (defs : Definitions) (x y : String) : Prop :=
  ∃ d b, defs.find? x = some d ∧ d.fixedBody? = some b ∧ y ∈ b.mentioned

theorem mem_keys_of_get {f : Formula} {entries : List (String × Formula)}
    (h : get x entries = some f) : x ∈ entries.map Prod.fst := by
  induction entries with
  | nil => cases h
  | cons entry entries ih =>
      rw [get, ite_eq_iff] at h
      rw [List.map_cons, List.mem_cons]
      rcases h with ⟨same, -⟩ | ⟨-, h⟩
      · exact .inl same.symm
      · exact .inr (ih h)

theorem Uses.mem_names (h : Uses defs x y) : x ∈ defs.names := by
  obtain ⟨d, b, hd, -, -⟩ := h
  exact mem_keys_of_get hd

/-- If definitions are not recursive, then going from name to name through them ends. -/
theorem acc_uses (acyclic : ∀ x, ¬ TransGen (Uses defs) x x) (x : String) :
    Acc (flip (Uses defs)) x := by
  have order : IsStrictOrder String (TransGen (flip (Uses defs))) :=
    { irrefl := fun x loop => acyclic x (transGen_swap.mp loop)
      trans := fun _ _ _ => TransGen.trans }
  have ends := Set.wellFoundedOn_iff.mp
    (Set.Finite.wellFoundedOn (r := TransGen (flip (Uses defs))) defs.names.finite_toSet)
  induction x using ends.induction with
  | _ x ih =>
      refine .intro x fun y use => ?_
      by_cases hy : y ∈ defs.names
      · exact ih y ⟨.single use, hy, use.mem_names⟩
      · -- A name without a definition uses none.
        exact .intro y fun z next => absurd next.mem_names hy

end Definitions

namespace Formula

variable {defs : Definitions} {f g : Formula}

/-- One click: there is markup, and an id in it locates the next formula. -/
def Click (defs : Definitions) (f g : Formula) : Prop :=
  ∃ m id, f.markup defs = .ok m ∧ .node id ∈ Target.ofMarkup m ∧ f.locate defs id = .ok (some g)

theorem Click.leadsTo (h : Click defs f g) : LeadsTo defs f g := by
  obtain ⟨m, id, -, -, located⟩ := h
  exact leadsTo_of_locate located

/-- Where a click can lead somewhere, there is something to click on. -/
theorem exists_click_of_leadsTo {m : String} (hm : f.markup defs = .ok m)
    (h : LeadsTo defs f g) : ∃ k, Click defs f k := by
  obtain ⟨k, located⟩ := exists_locate_of_leadsTo h
  exact ⟨k, m, g.id, hm, (node_mem_ofMarkup_iff hm).mpr ⟨g, h, rfl⟩, located⟩

/-- Where clicking ends: at a constant, at a variable that is not defined as a fixed point, or at a
formula that there is no markup for. -/
inductive Final (defs : Definitions) : Formula → Prop
  | truth {i : FormulaId} {v : Bool} : Final defs (.truth i v)
  | var {i : FormulaId} {x : String} (h : ∀ d, defs.find? x = some d → d.fixedBody? = none) :
      Final defs (.var i x)
  | error {f : Formula} {error : FormulaError} (h : f.markup defs = .error error) : Final defs f

theorem exists_leadsTo_or_final (defs : Definitions) (f : Formula) :
    (∃ g, LeadsTo defs f g) ∨ Final defs f := by
  cases f with
  | truth i v => exact .inr .truth
  | connective i op f fs => exact .inl ⟨f, .child (List.mem_cons_self ..)⟩
  | modal i op a f => exact .inl ⟨f, .child (List.mem_singleton_self _)⟩
  | fixed i op x f => exact .inl ⟨f, .child (List.mem_singleton_self _)⟩
  | var i x =>
      by_cases h : ∃ d b, defs.find? x = some d ∧ d.fixedBody? = some b
      · obtain ⟨d, b, hd, hb⟩ := h
        exact .inl ⟨b, .definition hd hb⟩
      · refine .inr (.var fun d hd => Option.eq_none_iff_forall_ne_some.mpr fun b hb => ?_)
        exact h ⟨d, b, hd, hb⟩

/-- No click is possible exactly where clicking is said to end. -/
theorem not_exists_click_iff : (¬∃ g, Click defs f g) ↔ Final defs f := by
  constructor
  · intro stuck
    rcases exists_leadsTo_or_final defs f with ⟨g, step⟩ | final
    · cases hm : f.markup defs with
      | ok m => exact absurd (exists_click_of_leadsTo hm step) stuck
      | error error => exact .error hm
    · exact final
  · rintro final ⟨g, click⟩
    cases final with
    | truth =>
        cases click.leadsTo with
        | child h => cases h
    | var h =>
        cases click.leadsTo with
        | child h => cases h
        | definition hd hb =>
            rw [h _ hd] at hb
            cases hb
    | error h =>
        obtain ⟨m, -, hm, -⟩ := click
        rw [h] at hm
        cases hm

/-- If clicks end that start at the variables of a formula, so do those that start at the formula.
-/
theorem acc_of_mentioned
    (h : ∀ x ∈ f.mentioned, ∀ i, Acc (flip (LeadsTo defs)) (.var i x)) :
    Acc (flip (LeadsTo defs)) f := by
  induction f using childrenInduction with
  | step f ih =>
      refine .intro f fun g step => ?_
      cases step with
      | child hg => exact ih g hg fun x hx => h x (mentioned_subset_of_child hg hx)
      | @definition i x d g hd hg =>
          have ends := h x (by rw [mentioned_var]; exact List.mem_singleton_self x) i
          exact ends.inv (.definition hd hg)

theorem acc_var {x : String} (h : Acc (flip (Definitions.Uses defs)) x) (i : FormulaId) :
    Acc (flip (LeadsTo defs)) (.var i x) := by
  induction h generalizing i with
  | intro x _ ih =>
      refine .intro _ fun g step => ?_
      cases step with
      | child hg => cases hg
      | definition hd hb => exact acc_of_mentioned fun y hy j => ih y ⟨_, g, hd, hb, hy⟩ j

/-- From any formula on, every way down through children and definitions ends. -/
theorem acc_leadsTo (acyclic : ∀ x, ¬ TransGen (Definitions.Uses defs) x x) (f : Formula) :
    Acc (flip (LeadsTo defs)) f :=
  acc_of_mentioned fun x _ i => acc_var (Definitions.acc_uses acyclic x) i

theorem acc_click (acyclic : ∀ x, ¬ TransGen (Definitions.Uses defs) x x) (f : Formula) :
    Acc (flip (Click defs)) f :=
  Subrelation.accessible (fun click => Click.leadsTo click) (acc_leadsTo acyclic f)

/-- If there is no way to click on forever, clicking on somehow comes to where clicking ends. -/
theorem exists_final_of_acc (h : Acc (flip (Click defs)) f) :
    ∃ g, ReflTransGen (Click defs) f g ∧ Final defs g := by
  induction h with
  | intro f _ ih =>
      by_cases stuck : ∃ g, Click defs f g
      · obtain ⟨g, click⟩ := stuck
        obtain ⟨k, clicks, final⟩ := ih g click
        exact ⟨k, clicks.head click, final⟩
      · exact ⟨f, .refl, not_exists_click_iff.mp stuck⟩

/-- **Clicking comes to an end.**  If no definition uses itself, be it through other definitions,
then from no formula can one click on forever.  However one has clicked so far, one can click on
until no further click is possible, and then there is on display a constant, a variable that is not
defined as a fixed point, or a formula without markup; these are all the ends there are. -/
theorem clicks_end (acyclic : ∀ x, ¬ TransGen (Definitions.Uses defs) x x) (f : Formula) :
    (¬∃ s : Nat → Formula, s 0 = f ∧ ∀ n, Click defs (s n) (s (n + 1))) ∧
    (∀ g, ReflTransGen (Click defs) f g → ((¬∃ h, Click defs g h) ↔ Final defs g)) ∧
    ∀ g, ReflTransGen (Click defs) f g →
      ∃ h, ReflTransGen (Click defs) g h ∧ Final defs h := by
  refine ⟨fun forever => ?_, fun g _ => not_exists_click_iff, fun g _ => ?_⟩
  · exact not_acc_iff_exists_descending_chain.mpr forever (acc_click acyclic f)
  · exact exists_final_of_acc (acc_click acyclic g)

/-- Clicks from a variable through its definition, and through the definition that this uses. -/
theorem clicks_end_twofold :
    let defs : Definitions :=
      ⟨[("X", fixed ⟨2⟩ .least "X" (modal ⟨1⟩ .diamond .any (var ⟨0⟩ "Y"))),
        ("Y", fixed ⟨4⟩ .greatest "Y" (truth ⟨3⟩ true))]⟩
    (∀ x, ¬ TransGen (Definitions.Uses defs) x x) ∧
      ¬∃ s : Nat → Formula, s 0 = var ⟨5⟩ "X" ∧ ∀ n, Click defs (s n) (s (n + 1)) := by
  intro defs
  have only {x y : String} (use : Definitions.Uses defs x y) : x = "X" ∧ y = "Y" := by
    obtain ⟨d, b, hd, hb, hy⟩ := use
    simp only [defs, Definitions.find?, Definitions.get] at hd
    split at hd
    · rename_i same
      cases hd
      cases hb
      exact ⟨same.symm, by simpa using hy⟩
    · split at hd
      · cases hd
        cases hb
        simp [mentioned, preorder, varName?] at hy
      · cases hd
  have acyclic (x : String) : ¬ TransGen (Definitions.Uses defs) x x := by
    intro loop
    obtain ⟨y, first, -⟩ := TransGen.head'_iff.mp loop
    obtain ⟨z, -, last⟩ := TransGen.tail'_iff.mp loop
    have same := (only first).1.symm.trans (only last).2
    revert same
    decide
  exact ⟨acyclic, (clicks_end acyclic (var ⟨5⟩ "X")).1⟩

end Formula

end ProcessLogic
