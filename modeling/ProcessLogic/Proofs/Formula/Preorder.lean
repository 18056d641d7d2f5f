import ProcessLogic.Formula.Basic

/-!
# Below a node

The nodes of a formula are the formula and the nodes of its children.
-/

namespace ProcessLogic

namespace Formula

theorem preorderAll_eq_flatMap (fs : List Formula) : preorderAll fs = fs.flatMap preorder := by
  induction fs with
  | nil => rw [preorderAll, List.flatMap_nil]
  | cons f fs ih => rw [preorderAll, ih, List.flatMap_cons]

/-- The walk through a formula is that through its children, with the root in front. -/
theorem preorder_eq (f : Formula) : f.preorder = f :: f.children.flatMap preorder := by
  cases f with
  | connective i op f fs => rw [preorder, preorderAll_eq_flatMap, children, List.flatMap_cons]
  | modal i op a f => rw [preorder, children, List.flatMap_singleton]
  | fixed i op x f => rw [preorder, children, List.flatMap_singleton]
  | _ => rw [preorder, children, List.flatMap_nil]

/-- To prove a property of all formulas, prove it of a formula whose children have it. -/
@[elab_as_elim]
theorem childrenInduction {motive : Formula → Prop}
    (step : ∀ f, (∀ g ∈ f.children, motive g) → motive f) (f : Formula) : motive f := by
  induction f using Formula.induction with
  | truth i v => exact step _ (by simp)
  | connective i op f fs ihf ihfs => exact step _ (List.forall_mem_cons.mpr ⟨ihf, ihfs⟩)
  | modal i op a f ih => exact step _ (by simpa using ih)
  | fixed i op x f ih => exact step _ (by simpa using ih)
  | var i x => exact step _ (by simp)

theorem mem_preorder_iff {f g : Formula} :
    g ∈ f.preorder ↔ g = f ∨ ∃ c ∈ f.children, g ∈ c.preorder := by
  rw [preorder_eq, List.mem_cons, List.mem_flatMap]

theorem self_mem_preorder (f : Formula) : f ∈ f.preorder := mem_preorder_iff.mpr (.inl rfl)

theorem mem_preorder_trans {f g h : Formula} (hg : g ∈ f.preorder) (hh : h ∈ g.preorder) :
    h ∈ f.preorder := by
  induction f using childrenInduction with
  | step f ih =>
      rcases mem_preorder_iff.mp hg with rfl | ⟨c, hc, hg⟩
      · exact hh
      · exact mem_preorder_iff.mpr (.inr ⟨c, hc, ih c hc hg⟩)

theorem mem_preorder_of_child {f g : Formula} (hg : g ∈ f.children) : g ∈ f.preorder :=
  mem_preorder_iff.mpr (.inr ⟨g, hg, self_mem_preorder g⟩)

theorem mem_children_of_fixedBody? {f b : Formula} (h : f.fixedBody? = some b) :
    b ∈ f.children := by
  cases f with
  | fixed i op x body =>
      obtain rfl := Option.some.inj h
      exact List.mem_singleton_self _
  | _ => cases h

end Formula

end ProcessLogic
