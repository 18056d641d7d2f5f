import ProcessLogic.Formula.Locate
import ProcessLogic.Proofs.Formula.Scan
import ProcessLogic.Proofs.Formula.Workshop

/-!
# A click is answered by the span that was clicked

Markup writes ids and locating compares them, and neither looks at the other.  What joins them is
the row of spans: locating runs through the spans that the formula offers, and takes the first one
whose node has the id that was clicked.

Ids may repeat in a row, as a node may be an operand more than once.  For nodes from one supply this
does no harm, since all spans with one id were then written for the same node.
-/

namespace ProcessLogic

namespace Span

variable {s : Span} {id : FormulaId} {g : Formula}

/-- The node of the span, if it has a given id. -/
def find (id : FormulaId) (s : Span) : Option Formula := s.node.bind (Formula.guardId id)

theorem find_eq_some_iff : s.find id = some g ↔ s.node = some g ∧ g.id = id := by
  rw [find, Option.bind_eq_some_iff]
  constructor
  · rintro ⟨k, hk, hg⟩
    rw [Formula.guardId, Option.ite_none_right_eq_some] at hg
    obtain ⟨same, found⟩ := hg
    cases found
    exact ⟨hk, same⟩
  · rintro ⟨hg, same⟩
    exact ⟨g, hg, if_pos same⟩

theorem target_eq_node_iff : s.target = .node id ↔ ∃ g, s.node = some g ∧ g.id = id := by
  obtain ⟨node, text⟩ := s
  cases node with
  | none => simp [target]
  | some g => simp [target]

end Span

namespace Formula

variable {defs : Definitions} {f g : Formula} {id : FormulaId}

/-- What one click can lead to: a child, or what the fixed point that a variable is defined as
governs. -/
inductive LeadsTo (defs : Definitions) : Formula → Formula → Prop
  | child {f g : Formula} (h : g ∈ f.children) : LeadsTo defs f g
  | definition {i : FormulaId} {x : String} {d g : Formula} (hd : defs.find? x = some d)
      (hg : d.fixedBody? = some g) : LeadsTo defs (.var i x) g

/-! ### Undefined variables -/

/-- Locating fails at an undefined variable only, whatever was clicked. -/
theorem locate_eq_error_iff {error : FormulaError} :
    f.locate defs id = .error error ↔
      ∃ i x, f = .var i x ∧ defs.find? x = none ∧ error = .undefinedVariable x := by
  cases f with
  | var i x =>
      rw [locate, Definitions.resolve]
      cases hd : defs.find? x with
      | none =>
          constructor
          · intro h
            exact ⟨i, x, rfl, hd, (Except.error.inj h).symm⟩
          · rintro ⟨_, _, same, -, rfl⟩
            cases same
            rfl
      | some d =>
          constructor
          · intro h
            cases h
          · rintro ⟨_, _, same, undefined, -⟩
            cases same
            rw [hd] at undefined
            cases undefined
  | _ => simp [locate]

/-- Where locating fails, there is no markup either, for the same reason. -/
theorem markup_eq_error_of_locate {error : FormulaError} (h : f.locate defs id = .error error) :
    f.markup defs = .error error := by
  obtain ⟨i, x, rfl, undefined, rfl⟩ := locate_eq_error_iff.mp h
  rw [markup, Definitions.resolve, undefined]
  rfl

/-! ### Locating by spans -/

/-- Locating takes the first span that carries the id. -/
theorem locate_eq_some_iff_findSome? :
    f.locate defs id = .ok (some g) ↔ (f.offers defs).findSome? (Span.find id) = some g := by
  cases f with
  | truth i v => simp [locate, offers, Span.find]
  | connective i op f fs =>
      have guard : Span.find id ∘ (fun f => ⟨some f, parenthesize (op.wraps f) f.text⟩) =
          Option.guard fun f => decide (f.id = id) := by
        funext f
        simp [Span.find, guardId, Option.guard]
      rw [locate, Except.ok.injEq, offers, List.findSome?_map, guard, List.findSome?_guard]
  | modal i op a f =>
      rw [locate, Except.ok.injEq, offers, List.findSome?_singleton]
      rfl
  | fixed i op x f =>
      rw [locate, Except.ok.injEq, offers, List.findSome?_singleton]
      rfl
  | var i x =>
      rw [locate, offers, Definitions.resolve]
      cases defs.find? x with
      | none => simp [bind, Except.bind]
      | some d =>
          show Except.ok (d.fixedBody?.bind (guardId id)) = .ok (some g) ↔ _
          rw [Except.ok.injEq, Option.bind_some]
          cases d.fixedBody? with
          | none => rfl
          | some body =>
              rw [Option.toList_some, List.map_singleton, List.findSome?_singleton]
              rfl

/-- What is located was offered, under the id that was clicked. -/
theorem exists_offer_of_locate (h : f.locate defs id = .ok (some g)) :
    g.id = id ∧ ∃ s ∈ f.offers defs, s.node = some g := by
  rw [locate_eq_some_iff_findSome?] at h
  obtain ⟨s, hs, found⟩ := List.exists_of_findSome?_eq_some h
  obtain ⟨node, same⟩ := Span.find_eq_some_iff.mp found
  exact ⟨same, s, hs, node⟩

/-- An id locates something if some span carries it. -/
theorem exists_locate_iff :
    (∃ g, f.locate defs id = .ok (some g)) ↔ ∃ s ∈ f.offers defs, s.target = .node id := by
  constructor
  · rintro ⟨g, hg⟩
    obtain ⟨same, s, hs, node⟩ := exists_offer_of_locate hg
    exact ⟨s, hs, Span.target_eq_node_iff.mpr ⟨g, node, same⟩⟩
  · rintro ⟨s, hs, carried⟩
    obtain ⟨g, found⟩ := Span.target_eq_node_iff.mp carried
    have some : ((f.offers defs).findSome? (Span.find id)).isSome := by
      rw [List.findSome?_isSome_iff]
      exact ⟨s, hs, by rw [Span.find_eq_some_iff.mpr found, Option.isSome_some]⟩
    obtain ⟨k, hk⟩ := Option.isSome_iff_exists.mp some
    exact ⟨k, locate_eq_some_iff_findSome?.mpr hk⟩

/-- Spans are written for what one click can lead to. -/
theorem leadsTo_of_mem_offers {s : Span} (hs : s ∈ f.offers defs) (hg : s.node = some g) :
    LeadsTo defs f g := by
  cases f with
  | truth i v =>
      rw [List.mem_singleton.mp hs] at hg
      cases hg
  | connective i op f fs =>
      obtain ⟨k, hk, rfl⟩ := List.mem_map.mp hs
      cases hg
      exact .child hk
  | modal i op a f =>
      rw [List.mem_singleton.mp hs] at hg
      cases hg
      exact .child (List.mem_singleton_self _)
  | fixed i op x f =>
      rw [List.mem_singleton.mp hs] at hg
      cases hg
      exact .child (List.mem_singleton_self _)
  | var i x =>
      obtain ⟨body, hb, rfl⟩ := List.mem_map.mp hs
      cases hg
      obtain ⟨d, hd, hg⟩ := Option.bind_eq_some_iff.mp (Option.mem_toList.mp hb)
      exact .definition hd hg

/-- Whatever one click can lead to has a span. -/
theorem exists_offer_of_leadsTo (h : LeadsTo defs f g) : ∃ s ∈ f.offers defs, s.node = some g := by
  cases h with
  | child h =>
      cases f with
      | truth i v => cases h
      | connective i op f fs => exact ⟨_, List.mem_map_of_mem h, rfl⟩
      | modal i op a f =>
          obtain rfl := List.mem_singleton.mp h
          exact ⟨_, List.mem_singleton_self _, rfl⟩
      | fixed i op x f =>
          obtain rfl := List.mem_singleton.mp h
          exact ⟨_, List.mem_singleton_self _, rfl⟩
      | var i x => cases h
  | @definition i x d _ hd hg =>
      refine ⟨⟨some g, x⟩, ?_, rfl⟩
      rw [offers, hd, Option.bind_some, hg]
      exact List.mem_singleton_self _

/-- What is located is one click away. -/
theorem leadsTo_of_locate (h : f.locate defs id = .ok (some g)) : LeadsTo defs f g := by
  obtain ⟨-, s, hs, node⟩ := exists_offer_of_locate h
  exact leadsTo_of_mem_offers hs node

/-- The id of what is one click away locates something. -/
theorem exists_locate_of_leadsTo (h : LeadsTo defs f g) :
    ∃ k, f.locate defs g.id = .ok (some k) := by
  obtain ⟨s, hs, node⟩ := exists_offer_of_leadsTo h
  exact exists_locate_iff.mpr ⟨s, hs, Span.target_eq_node_iff.mpr ⟨g, node, rfl⟩⟩

/-- The ids in markup are those of what is one click away. -/
theorem node_mem_ofMarkup_iff {m : String} (hm : f.markup defs = .ok m) :
    .node id ∈ Target.ofMarkup m ↔ ∃ g, LeadsTo defs f g ∧ g.id = id := by
  rw [ofMarkup_eq_map_target hm, List.mem_map]
  constructor
  · rintro ⟨s, hs, carried⟩
    obtain ⟨g, node, same⟩ := Span.target_eq_node_iff.mp carried
    exact ⟨g, leadsTo_of_mem_offers hs node, same⟩
  · rintro ⟨g, step, same⟩
    obtain ⟨s, hs, node⟩ := exists_offer_of_leadsTo step
    exact ⟨s, hs, Span.target_eq_node_iff.mpr ⟨g, node, same⟩⟩

/-- Only the constants offer a leaf. -/
theorem leaf_mem_offers_iff :
    (∃ s ∈ f.offers defs, s.target = .leaf) ↔ ∃ i v, f = .truth i v := by
  cases f <;> simp [offers, Span.target]

/-- A constant locates nothing. -/
theorem locate_truth (i : FormulaId) (v : Bool) : (truth i v).locate defs id = .ok none := rfl

/-! ### Nodes from one supply -/

/-- In a node that has been built, spans with one id were written for one node. -/
theorem node_eq_of_target_eq {w : Workshop} (h : w.Reachable) (few : w.nodes.length ≤ UInt64.size)
    (hf : f ∈ w.nodes) {s t : Span} (hs : s ∈ f.offers defs) (ht : t ∈ f.offers defs)
    (hn : s.target = .node id) (hm : t.target = .node id) : s.node = t.node := by
  obtain ⟨g, hg, gid⟩ := Span.target_eq_node_iff.mp hn
  obtain ⟨k, hk, kid⟩ := Span.target_eq_node_iff.mp hm
  rw [hg, hk]
  have child := h.numbered.children f hf
  cases leadsTo_of_mem_offers hs hg with
  | child cg =>
      cases leadsTo_of_mem_offers ht hk with
      | child ck => rw [h.eq_of_id_eq few (child g cg) (child k ck) (gid.trans kid.symm)]
      | definition => simp at cg
  | definition hd hb =>
      cases leadsTo_of_mem_offers ht hk with
      | child ck => simp at ck
      | definition hd' hb' =>
          rw [hd] at hd'
          cases hd'
          rw [hb] at hb'
          exact hb'

/-- In a node that has been built, the id of what is one click away locates just that. -/
theorem locate_of_leadsTo {w : Workshop} (h : w.Reachable) (few : w.nodes.length ≤ UInt64.size)
    (hf : f ∈ w.nodes) (step : LeadsTo defs f g) : f.locate defs g.id = .ok (some g) := by
  obtain ⟨k, hk⟩ := exists_locate_of_leadsTo step
  obtain ⟨same, t, ht, htk⟩ := exists_offer_of_locate hk
  obtain ⟨s, hs, hsg⟩ := exists_offer_of_leadsTo step
  have node := node_eq_of_target_eq h few hf hs ht (Span.target_eq_node_iff.mpr ⟨g, hsg, rfl⟩)
    (Span.target_eq_node_iff.mpr ⟨k, htk, same⟩)
  rw [hsg, htk] at node
  rw [hk, Option.some.inj node]

/-- **Rendering and locating agree.**  Locating fails at an undefined variable only, and there is no
markup then for the same reason.  What it finds is one click below the formula and has the id that
was looked for.  If there is markup, then the ids in it are those that locate something, and a leaf
is in it for the constants only, which locate nothing.  For a formula that has been built, what an
id locates is the very node that each span with this id was written for. -/
theorem locate_agrees (defs : Definitions) (f : Formula) :
    (∀ id error, f.locate defs id = .error error ↔
      ∃ i x, f = .var i x ∧ defs.find? x = none ∧ error = .undefinedVariable x) ∧
    (∀ id error, f.locate defs id = .error error → f.markup defs = .error error) ∧
    (∀ id g, f.locate defs id = .ok (some g) → g.id = id ∧ f.LeadsTo defs g) ∧
    ∀ m, f.markup defs = .ok m →
      (m = f.joint.intercalate ((f.offers defs).map Span.markup) ∨ f.offers defs = []) ∧
      (∀ id, .node id ∈ Target.ofMarkup m ↔ ∃ g, f.locate defs id = .ok (some g)) ∧
      (.leaf ∈ Target.ofMarkup m ↔ ∃ i v, f = .truth i v) ∧
      (.leaf ∈ Target.ofMarkup m → ∀ id, f.locate defs id = .ok none) ∧
      ∀ w : Workshop, w.Reachable → w.nodes.length ≤ UInt64.size → f ∈ w.nodes →
        ∀ id g, f.locate defs id = .ok (some g) ↔
          .node id ∈ Target.ofMarkup m ∧
            ∀ s ∈ f.offers defs, s.target = .node id → s.node = some g := by
  refine ⟨fun id error => locate_eq_error_iff, fun id error => markup_eq_error_of_locate,
    fun id g hg => ?_, fun m hm => ?_⟩
  · obtain ⟨same, s, hs, node⟩ := exists_offer_of_locate hg
    exact ⟨same, leadsTo_of_mem_offers hs node⟩
  · have leaf : .leaf ∈ Target.ofMarkup m ↔ ∃ i v, f = .truth i v := by
      rw [ofMarkup_eq_map_target hm, List.mem_map, leaf_mem_offers_iff]
    have carried (id : FormulaId) :
        .node id ∈ Target.ofMarkup m ↔ ∃ g, f.locate defs id = .ok (some g) := by
      rw [ofMarkup_eq_map_target hm, List.mem_map, exists_locate_iff]
    refine ⟨?_, carried, leaf, ?_, ?_⟩
    · rcases markup_eq hm with row | ⟨none, -⟩
      · exact .inl row
      · exact .inr none
    · intro hl id
      obtain ⟨i, v, rfl⟩ := leaf.mp hl
      exact locate_truth i v
    · intro w h few hf id g
      rw [carried]
      constructor
      · intro hg
        refine ⟨⟨g, hg⟩, fun s hs hn => ?_⟩
        obtain ⟨same, t, ht, node⟩ := exists_offer_of_locate hg
        rw [← node]
        exact node_eq_of_target_eq h few hf hs ht hn (Span.target_eq_node_iff.mpr ⟨g, node, same⟩)
      · rintro ⟨⟨k, hk⟩, only⟩
        obtain ⟨same, t, ht, node⟩ := exists_offer_of_locate hk
        have found := only t ht (Span.target_eq_node_iff.mpr ⟨k, node, same⟩)
        rw [node] at found
        cases found
        exact hk

/-- A constant that is both operands of a disjunction has two spans with one id. -/
theorem locate_agrees_shared :
    let t := truth ⟨0⟩ true
    let f := connective ⟨1⟩ .disjunction t [t]
    let w : Workshop := ⟨2, [t, f]⟩
    (w.Reachable ∧ f ∈ w.nodes) ∧ ∃ m, f.markup .empty = .ok m ∧ .node ⟨0⟩ ∈ Target.ofMarkup m ∧
      ∀ s ∈ f.offers .empty, s.target = .node ⟨0⟩ → s.node = some t := by
  intro t f w
  have first : Workshop.Reachable ⟨1, [t]⟩ :=
    Workshop.Reachable.empty.construct (.truth true) (by simp [Construction.operands])
  have reachable : w.Reachable :=
    first.construct (.connective .disjunction [t, t]) (by simp [Construction.operands])
  have rendered : ∃ m, f.markup .empty = .ok m := ⟨_, rfl⟩
  obtain ⟨m, hm⟩ := rendered
  have hf : f ∈ w.nodes := by simp [w]
  obtain ⟨-, -, -, agrees⟩ := locate_agrees .empty f
  obtain ⟨-, -, -, -, same⟩ := agrees m hm
  have found : f.locate .empty ⟨0⟩ = .ok (some t) := rfl
  exact ⟨⟨reachable, hf⟩, m, hm, (same w reachable (by decide) hf ⟨0⟩ t).mp found⟩

end Formula

end ProcessLogic
