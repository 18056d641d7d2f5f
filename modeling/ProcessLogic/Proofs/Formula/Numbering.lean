import ProcessLogic.Proofs.Formula.Preorder
import ProcessLogic.Proofs.Formula.Workshop

/-!
# Ids address nodes

The nodes of a workshop are numbered in the order in which they were built: the id of a node is its
place.  What a node is built from was there before, so ids fall from a node to its children, and the
nodes below a node are nodes of the workshop themselves.  An id therefore addresses a node wherever
it occurs, below whatever formula that was built.

A connective of nothing is not built and leaves the numbering as it was.
-/

namespace ProcessLogic

namespace Definitions

/-- A fixed point that is built to be a definition takes the next id as any other node does, and is
the very node that its name is defined as. -/
theorem run_defineFixed (defs : Definitions) (op : FixedPoint) (x : String) (body : Formula)
    (next : UInt64) :
    ∃ later, (defs.defineFixed op x body).run next = ((.fixed ⟨next⟩ op x body, later), next + 1) ∧
      later.find? x = some (.fixed ⟨next⟩ op x body) := by
  refine ⟨_, rfl, ?_⟩
  rw [find?_define, if_pos rfl]

end Definitions

namespace Construction

/-- Only a connective of nothing is refused. -/
theorem build_cases (c : Construction) (next : UInt64) :
    (∃ op, c = .connective op [] ∧ c.build.run next = (.error (.emptyConnective op), next)) ∨
      ∃ f, c.build.run next = (.ok f, next + 1) ∧ f.id = ⟨next⟩ ∧ f.children = c.operands := by
  rcases c.run_build next with built | ⟨error, refused⟩
  · exact .inr built
  · cases c with
    | connective op operands =>
        cases operands with
        | nil => exact .inl ⟨op, rfl, rfl⟩
        | cons f fs => exact .inr ⟨_, rfl, rfl, rfl⟩
    | _ => cases refused

/-- A construction is refused exactly if it is a connective of nothing. -/
theorem build_eq_error_iff {c : Construction} {next later : UInt64} {error : FormulaError} :
    c.build.run next = (.error error, later) ↔
      ∃ op, c = .connective op [] ∧ error = .emptyConnective op ∧ later = next := by
  constructor
  · intro refused
    rcases c.build_cases next with ⟨op, empty, run⟩ | ⟨f, run, -⟩
    · rw [run] at refused
      cases refused
      exact ⟨op, empty, rfl, rfl⟩
    · rw [run] at refused
      cases refused
  · rintro ⟨op, rfl, rfl, rfl⟩
    rfl

end Construction

namespace Formula

theorem sizeAll_eq_length {fs : List Formula} (h : ∀ f ∈ fs, f.size = f.preorder.length) :
    sizeAll fs = (preorderAll fs).length := by
  induction fs with
  | nil => rfl
  | cons f fs ih =>
      obtain ⟨hf, hfs⟩ := List.forall_mem_cons.mp h
      rw [sizeAll, preorderAll, List.length_append, hf, ih hfs]

/-- The size counts the entries of the walk, so a node that occurs twice counts twice. -/
theorem size_eq_length_preorder (f : Formula) : f.size = f.preorder.length := by
  induction f using Formula.induction with
  | connective i op f fs ihf ihfs =>
      rw [size, preorder, List.length_cons, List.length_append, ihf, sizeAll_eq_length ihfs,
        Nat.add_comm]
  | modal i op a f ih => rw [size, preorder, List.length_cons, ih, Nat.add_comm]
  | fixed i op x f ih => rw [size, preorder, List.length_cons, ih, Nat.add_comm]
  | _ => rw [size, preorder, List.length_singleton]

theorem children_ne_nil_of_isConnective {f : Formula} (h : f.isConnective = true) :
    f.children ≠ [] := by
  cases f with
  | connective i op f fs => exact List.cons_ne_nil f fs
  | _ => cases h

end Formula

namespace Workshop

open Formula

variable {w : Workshop} {f g : Formula}

/-- What is built is the last node. -/
theorem construct_of_run {c : Construction} (run : c.build.run w.next = (.ok f, w.next + 1)) :
    w.construct c = ⟨w.next + 1, w.nodes ++ [f]⟩ := by
  rw [construct, run]

/-- A connective of nothing leaves everything as it was. -/
theorem construct_connective_nil (w : Workshop) (op : Connective) :
    w.construct (.connective op []) = w := rfl

/-- The nodes below a node are nodes too. -/
theorem Numbered.mem_of_mem_preorder (h : w.Numbered) (hf : f ∈ w.nodes) (hg : g ∈ f.preorder) :
    g ∈ w.nodes := by
  induction f using childrenInduction with
  | step f ih =>
      rcases mem_preorder_iff.mp hg with rfl | ⟨c, hc, hg⟩
      · exact hf
      · exact ih c hc (h.children f hf c hc) hg

/-- The id of a node is its place. -/
theorem Numbered.id_eq (h : w.Numbered) {n : Nat} (hn : w.nodes[n]? = some f) :
    f.id = ⟨UInt64.ofNat n⟩ := by
  have ids := congrArg (·[n]?) h.ids
  obtain ⟨small, -⟩ := List.getElem?_eq_some_iff.mp hn
  rw [List.getElem?_map, hn, List.getElem?_map, List.getElem?_range small] at ids
  exact Option.some.inj ids

/-- Each child of a node has its place before the node. -/
theorem Reachable.exists_place_of_child (h : w.Reachable) {n : Nat} (hn : w.nodes[n]? = some f)
    (hg : g ∈ f.children) : ∃ m < n, w.nodes[m]? = some g := by
  induction h generalizing n with
  | empty => cases hn
  | @construct w h c built ih =>
      rcases w.construct_eq c with ⟨k, eq, -, children⟩ | eq
      · simp only [eq] at hn ⊢
        rcases Nat.lt_or_ge n w.nodes.length with old | new
        · rw [List.getElem?_append_left old] at hn
          obtain ⟨m, hm, place⟩ := ih hn
          exact ⟨m, hm, by rwa [List.getElem?_append_left (Nat.lt_trans hm old)]⟩
        · -- The node is the one that was built last, and its children are the operands.
          obtain ⟨-, rfl⟩ : n - w.nodes.length = 0 ∧ k = f := by
            simpa [List.getElem?_append_right new, List.getElem?_singleton] using hn
          rw [children] at hg
          obtain ⟨m, place⟩ := List.mem_iff_getElem?.mp (built g hg)
          obtain ⟨small, -⟩ := List.getElem?_eq_some_iff.mp place
          exact ⟨m, Nat.lt_of_lt_of_le small new, by rwa [List.getElem?_append_left small]⟩
      · rw [eq] at hn ⊢
        exact ih hn

section Few

variable (h : w.Reachable) (few : w.nodes.length ≤ UInt64.size)

include h few

/-- As long as the ids have not gone round, they count the nodes without gaps. -/
theorem Reachable.toNat_id {n : Nat} (hn : w.nodes[n]? = some f) : f.id.value.toNat = n := by
  obtain ⟨small, -⟩ := List.getElem?_eq_some_iff.mp hn
  rw [h.numbered.id_eq hn]
  exact UInt64.toNat_ofNat_of_lt' (Nat.lt_of_lt_of_le small few)

/-- The id of a child is smaller than that of its parent. -/
theorem Reachable.id_lt_of_child (hf : f ∈ w.nodes) (hg : g ∈ f.children) :
    g.id.value < f.id.value := by
  obtain ⟨n, hn⟩ := List.mem_iff_getElem?.mp hf
  obtain ⟨m, hm, place⟩ := h.exists_place_of_child hn hg
  rw [UInt64.lt_iff_toNat_lt, h.toNat_id few place, h.toNat_id few hn]
  exact hm

/-- Wherever two nodes with one id occur, they are the same node. -/
theorem Reachable.eq_of_mem_preorder {f' g' : Formula} (hf : f ∈ w.nodes) (hg : g ∈ w.nodes)
    (hf' : f' ∈ f.preorder) (hg' : g' ∈ g.preorder) (same : f'.id = g'.id) : f' = g' :=
  h.eq_of_id_eq few (h.numbered.mem_of_mem_preorder hf hf') (h.numbered.mem_of_mem_preorder hg hg')
    same

/-- **Ids address nodes.**  As long as no more nodes have been built than there are ids, the id of a
node is its place in the order in which they were built, so no two nodes have one id.  The next
construction from nodes either is a connective of nothing, which is refused, builds nothing and uses
no id; or it builds one node of its operands with the next id, and if it is to be a definition then
the name is defined as this very node.  Nothing but a connective of nothing is refused, and this
always is.

Below any two nodes, occurrences with one id are one node; a connective has an operand; the id of a
child is smaller than that of its parent; and the size of a formula is the number of entries in the
walk through its children. -/
theorem ids_address_nodes :
    (∀ (n : Nat) (f : Formula), w.nodes[n]? = some f → f.id.value.toNat = n) ∧
    (∀ c : Construction,
      (∃ op, c = .connective op [] ∧ c.build.run w.next = (.error (.emptyConnective op), w.next) ∧
        w.construct c = w) ∨
      ∃ f, c.build.run w.next = (.ok f, w.next + 1) ∧ f.children = c.operands ∧
        f.id = ⟨UInt64.ofNat w.nodes.length⟩ ∧ w.construct c = ⟨w.next + 1, w.nodes ++ [f]⟩) ∧
    (∀ (c : Construction) error next, c.build.run w.next = (.error error, next) ↔
      ∃ op, c = .connective op [] ∧ error = .emptyConnective op ∧ next = w.next) ∧
    (∀ (defs : Definitions) op x body, ∃ f later,
      (Construction.definition defs op x body).build.run w.next = (.ok f, w.next + 1) ∧
      (defs.defineFixed op x body).run w.next = ((f, later), w.next + 1) ∧
      later.find? x = some f) ∧
    (∀ f ∈ w.nodes, ∀ g ∈ w.nodes, ∀ f' ∈ f.preorder, ∀ g' ∈ g.preorder,
      f'.id = g'.id → f' = g') ∧
    ∀ f ∈ w.nodes, f.preorder = f :: f.children.flatMap preorder ∧ f.size = f.preorder.length ∧
      ∀ g ∈ f.preorder, (g.isConnective = true → g.children ≠ []) ∧
        ∀ k ∈ g.children, k.id.value < g.id.value := by
  refine ⟨fun n f hn => h.toNat_id few hn, fun c => ?_,
    fun c error next => Construction.build_eq_error_iff, fun defs op x body => ?_,
    fun f hf g hg f' hf' g' hg' same => h.eq_of_mem_preorder few hf hg hf' hg' same,
    fun f hf => ⟨f.preorder_eq, f.size_eq_length_preorder, fun g hg =>
      ⟨children_ne_nil_of_isConnective, fun k hk => ?_⟩⟩⟩
  · rcases c.build_cases w.next with ⟨op, rfl, refused⟩ | ⟨f, run, id, children⟩
    · exact .inl ⟨op, rfl, refused, w.construct_connective_nil op⟩
    · rw [h.numbered.next] at id
      exact .inr ⟨f, run, children, id, construct_of_run run⟩
  · obtain ⟨later, run, found⟩ := defs.run_defineFixed op x body w.next
    exact ⟨_, later, rfl, run, found⟩
  · exact h.id_lt_of_child few (h.numbered.mem_of_mem_preorder hf hg) hk

end Few

/-- A constant is both operands of a conjunction, which is the body of a definition; a disjunction
of nothing has been refused in between. -/
theorem ids_address_nodes_shared :
    let t := truth ⟨0⟩ true
    let f := connective ⟨1⟩ .conjunction t [t]
    let d := fixed ⟨2⟩ .least "X" f
    let w : Workshop := ⟨3, [t, f, d]⟩
    (w.Reachable ∧ w.nodes.length ≤ UInt64.size) ∧
      (Construction.connective .disjunction []).build.run w.next =
        (.error (.emptyConnective .disjunction), w.next) ∧
      d.preorder.map Formula.id = [⟨2⟩, ⟨1⟩, ⟨0⟩, ⟨0⟩] ∧ d.size = d.preorder.length ∧
      t.id.value < f.id.value ∧ f.id.value < d.id.value := by
  intro t f d w
  have one : Workshop.Reachable ⟨1, [t]⟩ :=
    Workshop.Reachable.empty.construct (.truth true) (by simp [Construction.operands])
  have same : Workshop.Reachable ⟨1, [t]⟩ :=
    one.construct (.connective .disjunction []) (by simp [Construction.operands])
  have two : Workshop.Reachable ⟨2, [t, f]⟩ :=
    same.construct (.connective .conjunction [t, t]) (by simp [Construction.operands])
  have reachable : w.Reachable :=
    two.construct (.definition .empty .least "X" f) (by simp [Construction.operands])
  have few : w.nodes.length ≤ UInt64.size := by decide
  obtain ⟨-, -, refused, -, -, below⟩ := ids_address_nodes reachable few
  obtain ⟨-, size, smaller⟩ := below d (by simp [w])
  have hf : f ∈ d.preorder := mem_preorder_of_child (List.mem_singleton_self f)
  exact ⟨⟨reachable, few⟩, (refused _ _ _).mpr ⟨_, rfl, rfl, rfl⟩, rfl, size, (smaller f hf).2 t List.mem_cons_self,
    (smaller d d.self_mem_preorder).2 f (List.mem_singleton_self f)⟩

end Workshop

end ProcessLogic
