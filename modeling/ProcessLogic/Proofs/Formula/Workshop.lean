import ProcessLogic.Formula.Definitions
import ProcessLogic.Proofs.Counter

/-!
# Ids name nodes

Markup speaks of nodes by their ids, and a click is resolved by comparing ids.  This is sound
because of how formulas come about: every node that is built takes the next id of one supply, and
all that it is built from has been built before.  A `Workshop` is such a supply with the nodes built
so far.

As long as the supply has not gone round, two nodes with one id are the same node, with everything
below them.  Ids are words, so this is the case for the first `2 ^ 64` nodes.
-/

namespace ProcessLogic

/-- One way to build a node. -/
inductive Construction where
  | truth (value : Bool)
  | connective (op : Connective) (operands : List Formula)
  | modal (op : Modality) (actions : Actions) (sub : Formula)
  | fixed (op : FixedPoint) (name : String) (body : Formula)
  | var (name : String)
  /-- A fixed point that is built to be the definition of its name. -/
  | definition (defs : Definitions) (op : FixedPoint) (name : String) (body : Formula)

namespace Construction

/-- The nodes that a new node is built from. -/
def operands : Construction → List Formula
  | .truth _ | .var _ => []
  | .connective _ operands => operands
  | .modal _ _ sub => [sub]
  | .fixed _ _ body | .definition _ _ _ body => [body]

/-- Builds the node. -/
def build : Construction → Build (Except FormulaError Formula)
  | .truth value => .ok <$> Build.truth value
  | .connective op operands => Build.connective op operands
  | .modal op actions sub => .ok <$> Build.modal op actions sub
  | .fixed op name body => .ok <$> Build.fixed op name body
  | .var name => .ok <$> Build.var name
  | .definition defs op name body => (.ok ·.1) <$> defs.defineFixed op name body

/-- What is built takes the next id and has the operands as its children; a connective of nothing is
refused, and takes no id. -/
theorem run_build (c : Construction) (next : UInt64) :
    (∃ f, c.build.run next = (.ok f, next + 1) ∧ f.id = ⟨next⟩ ∧ f.children = c.operands) ∨
      ∃ error, c.build.run next = (.error error, next) := by
  cases c with
  | connective op operands =>
      cases operands with
      | nil => exact .inr ⟨_, rfl⟩
      | cons f fs => exact .inl ⟨_, rfl, rfl, rfl⟩
  | _ => exact .inl ⟨_, rfl, rfl, rfl⟩

end Construction

/-- The nodes that have been built, first one first, and the id that the next one gets. -/
structure Workshop where
  next : UInt64 := 0
  nodes : List Formula := []

namespace Workshop

/-- Builds one more node, unless it is refused. -/
def construct (w : Workshop) (c : Construction) : Workshop :=
  match c.build.run w.next with
  | (.ok f, next) => ⟨next, w.nodes ++ [f]⟩
  | (.error _, next) => ⟨next, w.nodes⟩

/-- What can be built, one node after the other, from nodes that have been built before. -/
inductive Reachable : Workshop → Prop
  | empty : Reachable {}
  | construct {w : Workshop} (h : Reachable w) (c : Construction)
      (built : ∀ f ∈ c.operands, f ∈ w.nodes) : Reachable (w.construct c)

theorem construct_eq (w : Workshop) (c : Construction) :
    (∃ f, w.construct c = ⟨w.next + 1, w.nodes ++ [f]⟩ ∧ f.id = ⟨w.next⟩ ∧
      f.children = c.operands) ∨ w.construct c = w := by
  unfold construct
  rcases c.run_build w.next with ⟨f, run, id, children⟩ | ⟨error, run⟩
  · rw [run]
    exact .inl ⟨f, rfl, id, children⟩
  · rw [run]
    exact .inr rfl

/-- Ids are handed out in order, and nodes are built from nodes. -/
structure Numbered (w : Workshop) : Prop where
  next : w.next = UInt64.ofNat w.nodes.length
  ids : w.nodes.map Formula.id = (List.range w.nodes.length).map fun n => ⟨UInt64.ofNat n⟩
  children : ∀ f ∈ w.nodes, ∀ g ∈ f.children, g ∈ w.nodes

variable {w : Workshop}

theorem Numbered.construct (h : Numbered w) {c : Construction}
    (built : ∀ f ∈ c.operands, f ∈ w.nodes) : Numbered (w.construct c) := by
  rcases w.construct_eq c with ⟨f, eq, id, children⟩ | eq
  · rw [eq]
    refine ⟨?_, ?_, fun g hg k hk => ?_⟩
    · rw [h.next, List.length_append, List.length_singleton, word_succ]
    · rw [List.map_append, h.ids, List.map_singleton, id, h.next, List.length_append,
        List.length_singleton, List.range_succ, List.map_append]
      rfl
    · rcases List.mem_append.mp hg with hg | hg
      · exact List.mem_append_left _ (h.children g hg k hk)
      · rw [List.mem_singleton.mp hg, children] at hk
        exact List.mem_append_left _ (built k hk)
  · rw [eq]
    exact h

theorem Reachable.numbered (h : Reachable w) : Numbered w := by
  induction h with
  | empty => exact ⟨rfl, rfl, by simp⟩
  | construct h c built ih => exact ih.construct built

theorem Reachable.nodup_ids (h : Reachable w) (few : w.nodes.length ≤ UInt64.size) :
    (w.nodes.map Formula.id).Nodup := by
  have words : (List.range w.nodes.length).map (fun n => FormulaId.mk (UInt64.ofNat n)) =
      ((List.range w.nodes.length).map UInt64.ofNat).map FormulaId.mk := by
    rw [List.map_map]
    rfl
  rw [h.numbered.ids, words]
  exact (nodup_words few).map fun _ _ => FormulaId.mk.inj

/-- Two nodes with one id are the same node. -/
theorem Reachable.eq_of_id_eq (h : Reachable w) (few : w.nodes.length ≤ UInt64.size) {f g : Formula}
    (hf : f ∈ w.nodes) (hg : g ∈ w.nodes) (same : f.id = g.id) : f = g :=
  List.inj_on_of_nodup_map (h.nodup_ids few) hf hg same

end Workshop

end ProcessLogic
