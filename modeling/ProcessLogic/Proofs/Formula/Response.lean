import ProcessLogic.Proofs.Formula.Exploration

/-!
# How a click on the display is answered

Markup offers ids, and a click on one of them should lead to the node that its span was written for.
The span was written by the definitions in force when the formula was put on display, but the click
is answered by those in force now, and the display is not made again when they are replaced.

For most formulas this makes no difference, since a click leads to a child.  A variable leads to
where its definition says, so a click on it is lost once other definitions have come that give its
name no body or another one: it fails if the name has no definition any more, and finds nothing
otherwise.
-/

namespace ProcessLogic

/-- All definitions have been built in a workshop. -/
def Workshop.Made (w : Workshop) (defs : Definitions) : Prop :=
  ∀ x d, defs.find? x = some d → d ∈ w.nodes

theorem Workshop.made_singleton {w : Workshop} {x : String} {d : Formula} (h : d ∈ w.nodes) :
    w.Made ⟨[(x, d)]⟩ := by
  intro y k hk
  rw [Definitions.find?, Definitions.get, Definitions.get] at hk
  split at hk
  · rwa [← Option.some.inj hk]
  · cases hk

namespace Formula

variable {w : Workshop} {defs later : Definitions} {f g : Formula} {id : FormulaId}

/-- What one click leads to has been built, if the formula and the definitions have. -/
theorem LeadsTo.mem_nodes (hw : w.Numbered) (made : w.Made defs) (hf : f ∈ w.nodes)
    (step : LeadsTo defs f g) : g ∈ w.nodes := by
  cases step with
  | child hg => exact hw.children f hf g hg
  | definition hd hg => exact hw.children _ (made _ _ hd) g (mem_children_of_fixedBody? hg)

/-- By other definitions a click leads to the same node, unless it is on a variable to which they
give another body, or none. -/
theorem LeadsTo.later_iff (step : LeadsTo defs f g) :
    LeadsTo later f g ↔
      ∀ i x, f = .var i x → ∃ d, later.find? x = some d ∧ d.fixedBody? = some g := by
  constructor
  · rintro step i x rfl
    cases step with
    | child hg => cases hg
    | definition hd hg => exact ⟨_, hd, hg⟩
  · intro same
    cases step with
    | child hg => exact .child hg
    | definition =>
        obtain ⟨d, hd, hg⟩ := same _ _ rfl
        exact .definition hd hg

/-- A variable without a definition locates nothing but its own complaint. -/
theorem locate_var_of_undefined {i : FormulaId} {x : String} (undefined : defs.find? x = none) :
    (var i x).locate defs id = .error (.undefinedVariable x) :=
  locate_eq_error_iff.mpr ⟨i, x, rfl, undefined, rfl⟩

/-- A variable with a definition locates something or nothing, and does not fail. -/
theorem locate_var_of_defined {i : FormulaId} {x : String} {d : Formula}
    (hd : defs.find? x = some d) : ∃ located, (var i x).locate defs id = .ok located := by
  cases h : (var i x).locate defs id with
  | ok located => exact ⟨located, rfl⟩
  | error error =>
      obtain ⟨_, _, same, undefined, -⟩ := locate_eq_error_iff.mp h
      cases same
      rw [hd] at undefined
      cases undefined

section Workshop

variable (hw : w.Reachable) (few : w.nodes.length ≤ UInt64.size) (made : w.Made later)
  (hf : f ∈ w.nodes) (hg : g ∈ w.nodes)

include hw few made hf hg

/-- What an id locates is the node with this id, or it is nothing. -/
theorem eq_of_locate {k : Formula} (h : f.locate later g.id = .ok (some k)) : k = g := by
  obtain ⟨same, -⟩ := exists_offer_of_locate h
  exact hw.eq_of_id_eq few ((leadsTo_of_locate h).mem_nodes hw.numbered made hf) hg same

/-- A variable that is defined, but not by a fixed point with this body, locates nothing. -/
theorem locate_var_of_ne {i : FormulaId} {x : String} {d : Formula} (same : f = .var i x)
    (hd : later.find? x = some d) (other : d.fixedBody? ≠ some g) :
    f.locate later g.id = .ok none := by
  subst same
  obtain ⟨located, h⟩ : ∃ located, (var i x).locate later g.id = .ok located :=
    locate_var_of_defined hd
  cases located with
  | none => exact h
  | some k =>
      obtain rfl := eq_of_locate hw few made hf hg h
      cases leadsTo_of_locate h with
      | child hk => cases hk
      | definition hd' hk =>
          obtain rfl := Option.some.inj (hd.symm.trans hd')
          exact absurd hk other

end Workshop

end Formula

namespace Explorer

open Formula

variable {w : Workshop} {defs : Definitions} {e : Explorer} {f g : Formula} {op : Operation}
  {ops : List Operation}

/-! ### Only nodes come on display -/

/-- The formulas that an operation brings have been built. -/
def Operation.Built (w : Workshop) : Operation → Prop
  | .use definitions => w.Made definitions
  | .display f => ∀ g, f = some g → g ∈ w.nodes
  | .listen | .select _ | .drillDown _ => True

/-- All formulas that an explorer knows of have been built. -/
structure Stocked (w : Workshop) (e : Explorer) : Prop where
  definitions : w.Made e.definitions
  current : ∀ f, e.current = some f → f ∈ w.nodes

theorem fst_select (e : Explorer) (raw : String) : (e.select raw).1 = e.locate raw := by
  rw [select]
  cases e.locate raw <;> rfl

/-- A click on an id locates it in the formula on display. -/
theorem fst_select_text (hf : e.current = some f) (id : FormulaId) :
    (e.select (Target.node id).text).1 = f.locate e.definitions id := by
  rw [fst_select, locate, Target.ofSelection_text]
  change e.find (.node id) = _
  rw [find, hf]

/-- What a selection finds is one click away from the formula on display. -/
theorem exists_leadsTo_of_locate {raw : String} (h : e.locate raw = .ok (some g)) :
    ∃ f, e.current = some f ∧ LeadsTo e.definitions f g := by
  rw [locate] at h
  obtain ⟨target, -, found⟩ := exists_of_bind_eq_ok h
  cases target with
  | leaf => cases found
  | node id =>
      rw [find] at found
      cases current : e.current with
      | none =>
          rw [current] at found
          cases found
      | some f =>
          rw [current] at found
          exact ⟨f, rfl, leadsTo_of_locate found⟩

theorem exists_leadsTo_of_drillDown {raw : String} (h : (e.drillDown raw).1 = .ok (some g)) :
    ∃ f, e.current = some f ∧ LeadsTo e.definitions f g := by
  suffices found : (e.select raw).1 = .ok (some g) by
    rw [fst_select] at found
    exact exists_leadsTo_of_locate found
  rw [drillDown] at h
  rcases e.select_cases raw with ⟨located, selected⟩ | ⟨error, selected⟩
  · rw [selected] at h ⊢
    dsimp only at h
    cases shown : (e.tell located).display located with
    | ok e' =>
        rw [shown] at h
        exact h
    | error error =>
        rw [shown] at h
        cases h
  · rw [selected] at h
    cases h

/-- What is put on display has been built, if all that was known before has. -/
theorem Stocked.mem_of_puts (hw : w.Numbered) (h : Stocked w e) (built : op.Built w)
    (puts : e.Puts op (some f)) : f ∈ w.nodes := by
  cases puts with
  | display shown => exact built f rfl
  | drillDown clicked =>
      obtain ⟨k, current, step⟩ := exists_leadsTo_of_drillDown clicked
      exact step.mem_nodes hw h.definitions (h.current k current)

theorem Stocked.step (hw : w.Numbered) (h : Stocked w e) (built : op.Built w) :
    Stocked w (e.step op) := by
  obtain ⟨definitions, display⟩ := e.step_cases op
  refine ⟨?_, fun f current => ?_⟩
  · rw [definitions]
    cases op with
    | use definitions => exact built
    | _ => exact h.definitions
  · rcases display with ⟨g, puts, shown⟩ | ⟨-, cleared, -⟩ | ⟨-, same, -⟩
    · rw [shown.current] at current
      cases current
      exact h.mem_of_puts hw built puts
    · rw [cleared] at current
      cases current
    · rw [same] at current
      exact h.current f current

theorem Stocked.ofOperations (hw : w.Numbered) (made : w.Made defs)
    (built : ∀ op ∈ ops, op.Built w) : Stocked w (ofOperations defs ops) := by
  induction ops using List.reverseRecOn with
  | nil => exact ⟨made, by rintro f ⟨⟩⟩
  | append_singleton ops op ih =>
      rw [ofOperations_append_singleton]
      refine (ih fun op h => built op (List.mem_append_left _ h)).step hw (built op ?_)
      exact List.mem_append_right _ (List.mem_singleton_self op)

/-! ### What is on display when something can be clicked -/

/-- If the markup offers something, then a formula is on display, and the markup is what it had by
the definitions in force when it was put there. -/
theorem exists_current_of_offered {target : Target}
    (offered : target ∈ Target.ofMarkup (ofOperations defs ops).markup) :
    ∃ f before op after, ops = before ++ op :: after ∧
      (ofOperations defs before).Puts op (some f) ∧
      ((ofOperations defs before).step op).Quiet after ∧
      (ofOperations defs ops).current = some f ∧
      f.markup (inForce defs before) = .ok (ofOperations defs ops).markup := by
  rcases display_ofOperations defs ops with ⟨-, empty⟩ | shown
  · rw [empty] at offered
    cases offered
  · exact shown

/-- Other definitions leave on display what was offered by the old ones. -/
theorem offered_of_use {m : String} (hm : f.markup defs = .ok m) (later : Definitions)
    {target : Target} (offered : target ∈ f.targets defs) :
    target ∈ Target.ofMarkup (ofOperations defs [.display (some f), .use later]).markup := by
  have shown : (new defs).display (some f) = .ok { new defs with current := some f, markup := m } :=
    display_of_markup hm
  have kept : (ofOperations defs [.display (some f), .use later]).markup = m := by
    change (((new defs).display (some f)).toOption.getD (new defs)).markup = m
    rw [shown]
    rfl
  rwa [kept, ofMarkup_eq_targets hm]

section Offered

variable (hw : w.Reachable) (few : w.nodes.length ≤ UInt64.size) (made : w.Made defs)
  (built : ∀ op ∈ ops, op.Built w)

include hw few made built

/-- **What is on display can be clicked, as long as it means what it meant.**  After any operations,
an id that the markup offers was written for one node, which a click led to by the definitions in
force when the formula was put on display.  A click is answered by this very node if the formula is
no variable, or a variable that is still defined as it was; and precisely it is so unless the
formula is a variable that is now no fixed point with this body.  A click on such a variable fails
if it has no definition, and finds nothing otherwise. -/
theorem select_offered {id : FormulaId}
    (offered : .node id ∈ Target.ofMarkup (ofOperations defs ops).markup) :
    ∃ f g before op after, ops = before ++ op :: after ∧
      (ofOperations defs before).Puts op (some f) ∧
      ((ofOperations defs before).step op).Quiet after ∧
      (ofOperations defs ops).current = some f ∧
      f.markup (inForce defs before) = .ok (ofOperations defs ops).markup ∧
      LeadsTo (inForce defs before) f g ∧ g ∈ w.nodes ∧ g.id = id ∧
      (∀ s ∈ f.offers (inForce defs before), s.target = .node id → s.node = some g) ∧
      let now := inForce defs ops
      let answer := ((ofOperations defs ops).select (Target.node id).text).1
      ((∀ i x, f = .var i x → now.find? x = (inForce defs before).find? x) →
        answer = .ok (some g)) ∧
      (answer = .ok (some g) ↔
        ∀ i x, f = .var i x → ∃ d, now.find? x = some d ∧ d.fixedBody? = some g) ∧
      ∀ i x, f = .var i x →
        (now.find? x = none → answer = .error (.undefinedVariable x)) ∧
        ∀ d, now.find? x = some d → d.fixedBody? ≠ some g → answer = .ok none := by
  obtain ⟨f, before, op, after, split, puts, since, current, markup⟩ :=
    exists_current_of_offered offered
  have stocked := Stocked.ofOperations hw.numbered made built
  have earlier : Stocked w (ofOperations defs before) :=
    .ofOperations hw.numbered made fun op h => built op (split ▸ List.mem_append_left _ h)
  have hf := stocked.current f current
  have madeNow := stocked.definitions
  have madeThen := earlier.definitions
  rw [definitions_ofOperations] at madeNow madeThen
  obtain ⟨g, step, rfl⟩ := (node_mem_ofMarkup_iff markup).mp offered
  have hg := step.mem_nodes hw.numbered madeThen hf
  have answer_eq := fst_select_text current g.id
  rw [definitions_ofOperations] at answer_eq
  refine ⟨f, g, before, op, after, split, puts, since, current, markup, step, hg, rfl, ?spans, ?_⟩
  case spans =>
    intro s hs carried
    obtain ⟨t, ht, written⟩ := exists_offer_of_leadsTo step
    rw [← written]
    exact node_eq_of_target_eq hw few hf hs ht carried
      (Span.target_eq_node_iff.mpr ⟨g, written, rfl⟩)
  -- The click is answered by the definitions of now, and the step was one by those of then.
  have answer_iff : f.locate (inForce defs ops) g.id = .ok (some g) ↔
      ∀ i x, f = .var i x → ∃ d, (inForce defs ops).find? x = some d ∧ d.fixedBody? = some g :=
    Iff.trans ⟨leadsTo_of_locate, locate_of_leadsTo hw few hf⟩ step.later_iff
  rw [answer_eq]
  refine ⟨fun same => answer_iff.mpr ?_, answer_iff, fun i x same => ⟨?_, fun d hd other => ?_⟩⟩
  · rintro i x rfl
    rw [same i x rfl]
    exact step.later_iff.mp step i x rfl
  · rintro undefined
    rw [same]
    exact locate_var_of_undefined undefined
  · exact locate_var_of_ne hw few madeNow hf hg same hd other

end Offered

/-- The name of a variable on display gets another definition with the same body, and a click on the
variable still leads there. -/
theorem select_offered_rebound :
    let t := truth ⟨0⟩ true
    let d := fixed ⟨1⟩ .least "X" t
    let k := fixed ⟨2⟩ .greatest "X" t
    let x := var ⟨3⟩ "X"
    let defs : Definitions := ⟨[("X", d)]⟩
    let later : Definitions := ⟨[("X", k)]⟩
    let w : Workshop := ⟨4, [t, d, k, x]⟩
    let ops := [.display (some x), .use later]
    (w.Reachable ∧ w.nodes.length ≤ UInt64.size ∧ w.Made defs ∧ ∀ op ∈ ops, op.Built w) ∧
      .node ⟨0⟩ ∈ Target.ofMarkup (ofOperations defs ops).markup ∧
      ((ofOperations defs ops).select (Target.node ⟨0⟩).text).1 = .ok (some t) := by
  intro t d k x defs later w ops
  have one : Workshop.Reachable ⟨1, [t]⟩ :=
    Workshop.Reachable.empty.construct (.truth true) (by simp [Construction.operands])
  have two : Workshop.Reachable ⟨2, [t, d]⟩ :=
    one.construct (.definition .empty .least "X" t) (by simp [Construction.operands])
  have three : Workshop.Reachable ⟨3, [t, d, k]⟩ :=
    two.construct (.definition defs .greatest "X" t) (by simp [Construction.operands])
  have reachable : w.Reachable := three.construct (.var "X") (by simp [Construction.operands])
  have few : w.nodes.length ≤ UInt64.size := by decide
  have made : w.Made defs := Workshop.made_singleton (by simp [w])
  have madeLater : w.Made later := Workshop.made_singleton (by simp [w])
  have built : ∀ op ∈ ops, op.Built w := by
    intro op h
    rcases List.mem_pair.mp h with rfl | rfl
    · rintro g ⟨⟩
      simp [w]
    · exact madeLater
  obtain ⟨m, hm⟩ : ∃ m, x.markup defs = .ok m := ⟨_, rfl⟩
  have offered := offered_of_use hm later (List.mem_singleton_self _)
  refine ⟨⟨reachable, few, made, built⟩, offered, ?_⟩
  obtain ⟨f, g, -, -, -, -, -, -, current, -, -, hg, same, -, -, answer, -⟩ :=
    select_offered reachable few made built offered
  obtain rfl : g = t := reachable.eq_of_id_eq few hg (by simp [w]) same
  have shown : (ofOperations defs ops).current = some x := rfl
  rw [shown] at current
  cases current
  refine answer.mpr fun i y hy => ?_
  obtain ⟨-, rfl⟩ := Formula.var.inj hy
  exact ⟨k, rfl, rfl⟩

/-- A click on what is on display can be lost: once the definitions have been replaced, it fails if
they do not define the variable on display, and finds nothing if they define it as a constant. -/
theorem select_offered_lost :
    let t := truth ⟨0⟩ true
    let d := fixed ⟨1⟩ .least "X" t
    let x := var ⟨2⟩ "X"
    let defs : Definitions := ⟨[("X", d)]⟩
    let w : Workshop := ⟨3, [t, d, x]⟩
    let after (later : Definitions) := ofOperations defs [.display (some x), .use later]
    (w.Reachable ∧ w.Made defs ∧ x ∈ w.nodes) ∧
      (∀ later, .node ⟨0⟩ ∈ Target.ofMarkup (after later).markup) ∧
      ((after .empty).select (Target.node ⟨0⟩).text).1 = .error (.undefinedVariable "X") ∧
      ((after ⟨[("X", t)]⟩).select (Target.node ⟨0⟩).text).1 = .ok none := by
  intro t d x defs w after
  have one : Workshop.Reachable ⟨1, [t]⟩ :=
    Workshop.Reachable.empty.construct (.truth true) (by simp [Construction.operands])
  have two : Workshop.Reachable ⟨2, [t, d]⟩ :=
    one.construct (.definition .empty .least "X" t) (by simp [Construction.operands])
  have reachable : w.Reachable := two.construct (.var "X") (by simp [Construction.operands])
  have made : w.Made defs := Workshop.made_singleton (by simp [w])
  obtain ⟨m, hm⟩ : ∃ m, x.markup defs = .ok m := ⟨_, rfl⟩
  refine ⟨⟨reachable, made, by simp [w]⟩, fun later => ?_, ?_, ?_⟩
  · exact offered_of_use hm later (List.mem_singleton_self _)
  · rw [fst_select_text (f := x) rfl]
    rfl
  · rw [fst_select_text (f := x) rfl]
    rfl

end Explorer

end ProcessLogic
