import ProcessLogic.Proofs.Formula.Click
import ProcessLogic.Proofs.Formula.Display
import ProcessLogic.Proofs.Formula.Mention

/-!
# Where clicks lead

Whoever starts with a formula on display and clicks on what the markup offers gets to see the
formula, with everything below it, and for a variable among these the body of the fixed point it is
defined as, with everything below that, and so on.  `Visitable` is this set.  The one thing that
stops a click is a body that mentions a variable without a definition: it cannot be shown, and the
variable stays.

The way from one display to the next leads through text: the id is written into the markup, read out
of it, written again for the click, and compared with the ids of nodes.  So the formulas have to be
built from one supply of ids.
-/

namespace ProcessLogic

namespace Formula

/-- What can be seen from a formula on: the formula, the children of what can be seen, and the
bodies of the fixed points that variables are defined as, if all that they mention is defined. -/
inductive Visitable (defs : Definitions) (f : Formula) : Formula → Prop
  | root : Visitable defs f f
  | child {g h : Formula} (hg : Visitable defs f g) (hh : h ∈ g.children) : Visitable defs f h
  | definition {i : FormulaId} {x : String} {d b : Formula} (hg : Visitable defs f (.var i x))
      (hd : defs.find? x = some d) (hb : d.fixedBody? = some b)
      (defined : ∀ y ∈ b.mentioned, ∃ e, defs.find? y = some e) : Visitable defs f b

namespace Visitable

variable {defs : Definitions} {f g : Formula}

/-- What can be seen has markup. -/
theorem exists_markup (hf : ∃ m, f.markup defs = .ok m) (h : Visitable defs f g) :
    ∃ m, g.markup defs = .ok m := by
  induction h with
  | root => exact hf
  | child _ hh ih => exact exists_markup_of_child ih hh
  | definition _ _ _ defined _ => exact exists_markup_iff.mpr defined

/-- One click from what can be seen leads to what can be seen, if that has markup. -/
theorem leadsTo {h : Formula} (hg : Visitable defs f g) (step : LeadsTo defs g h)
    (rendered : ∃ m, h.markup defs = .ok m) : Visitable defs f h := by
  cases step with
  | child hh => exact hg.child hh
  | definition hd hb => exact hg.definition hd hb (exists_markup_iff.mp rendered)

/-- With a formula everything below it can be seen. -/
theorem of_mem_preorder (h : Visitable defs f g) {k : Formula} (hk : k ∈ g.preorder) :
    Visitable defs f k := by
  induction g using childrenInduction with
  | step g ih =>
      rcases mem_preorder_iff.mp hk with rfl | ⟨c, hc, hk⟩
      · exact h
      · exact ih c hc (h.child hc) hk

/-- Nothing can be seen but what is below the formula, or below a fixed point that is a definition.
-/
theorem mem_preorder (h : Visitable defs f g) :
    g ∈ f.preorder ∨ ∃ x d b, defs.find? x = some d ∧ d.fixedBody? = some b ∧ g ∈ b.preorder := by
  induction h with
  | root => exact .inl f.self_mem_preorder
  | child _ hh ih =>
      rcases ih with below | ⟨x, d, b, hd, hb, below⟩
      · exact .inl (mem_preorder_trans below (mem_preorder_of_child hh))
      · exact .inr ⟨x, d, b, hd, hb, mem_preorder_trans below (mem_preorder_of_child hh)⟩
  | definition _ hd hb _ _ => exact .inr ⟨_, _, _, hd, hb, self_mem_preorder _⟩

/-- What can be seen has been built, if the formula and the definitions have. -/
theorem mem_nodes {w : Workshop} (hw : w.Numbered) (hf : f ∈ w.nodes)
    (built : ∀ x d, defs.find? x = some d → d ∈ w.nodes) (h : Visitable defs f g) :
    g ∈ w.nodes := by
  induction h with
  | root => exact hf
  | child _ hh ih => exact hw.children _ ih _ hh
  | definition _ hd hb _ _ =>
      exact hw.children _ (built _ _ hd) _ (mem_children_of_fixedBody? hb)

end Visitable

/-! ### What there is no markup for -/

variable {defs : Definitions} {g h : Formula}

/-- If there is no markup for what a click leads to, then the click was on a variable, and its
definition mentions a name without a definition. -/
theorem exists_undefined_of_error (rendered : ∃ m, g.markup defs = .ok m) (step : LeadsTo defs g h)
    {error : FormulaError} (herror : h.markup defs = .error error) :
    ∃ i x d, g = .var i x ∧ defs.find? x = some d ∧ d.fixedBody? = some h ∧
      ∃ y ∈ h.mentioned, defs.find? y = none := by
  have refused : ¬∃ m, h.markup defs = .ok m := by
    rintro ⟨m, hm⟩
    rw [hm] at herror
    cases herror
  cases step with
  | child hh => exact absurd (exists_markup_of_child rendered hh) refused
  | @definition i x d _ hd hb =>
      rw [exists_markup_iff] at refused
      push Not at refused
      obtain ⟨y, hy, undefined⟩ := refused
      exact ⟨i, x, d, rfl, hd, hb, y, hy, Option.eq_none_iff_forall_ne_some.mpr undefined⟩

end Formula

namespace Explorer

open Formula

variable {defs : Definitions} {e e' : Explorer} {f g h : Formula}

theorem select_of_locate (hs : e.Shows defs g) (hl : g.locate defs h.id = .ok (some h)) :
    e.select (Target.node h.id).text = (.ok (some h), e.tell (some h)) := by
  have located : e.locate (Target.node h.id).text = .ok (some h) := by
    rw [locate, Target.ofSelection_text]
    change e.find (.node h.id) = _
    rw [find, hs.current, hs.definitions]
    exact hl
  rw [select, located]

/-- A click puts what it locates on display, if there is markup for it. -/
theorem drillDown_of_markup (hs : e.Shows defs g) (hl : g.locate defs h.id = .ok (some h))
    {m : String} (hm : h.markup defs = .ok m) :
    ∃ e', e.drillDown (Target.node h.id).text = (.ok (some h), e') ∧ e'.Shows defs h := by
  obtain rfl := hs.definitions
  have shown := display_of_markup (e := e.tell (some h)) hm
  refine ⟨{ e.tell (some h) with current := some h, markup := m }, ?_, rfl, rfl, hm⟩
  rw [drillDown, select_of_locate hs hl]
  dsimp only
  rw [shown]

/-- If there is no markup for what it locates, a click fails and the display stays as it is. -/
theorem drillDown_of_error (hs : e.Shows defs g) (hl : g.locate defs h.id = .ok (some h))
    {error : FormulaError} (herror : h.markup defs = .error error) :
    e.drillDown (Target.node h.id).text = (.error error, e.tell (some h)) := by
  obtain rfl := hs.definitions
  have refused := display_of_error (e := e.tell (some h)) herror
  rw [drillDown, select_of_locate hs hl]
  dsimp only
  rw [refused]

/-! ### Any number of clicks -/

/-- What an explorer can become by clicks on the ids that the markup on display offers. -/
inductive Clicks (e : Explorer) : Explorer → Prop
  | refl : Clicks e e
  | click {e' : Explorer} {id : FormulaId} (before : Clicks e e')
      (offered : .node id ∈ Target.ofMarkup e'.markup) :
      Clicks e (e'.drillDown (Target.node id).text).2

section Workshop

variable {w : Workshop} {id : FormulaId} (hw : w.Reachable) (few : w.nodes.length ≤ UInt64.size)

include hw few

/-- A click on an offered id shows what it leads to, or it fails and the display stays as it is. -/
theorem drillDown_of_offered (hg : g ∈ w.nodes) (hs : e.Shows defs g)
    (offered : .node id ∈ Target.ofMarkup e.markup) :
    ∃ h, LeadsTo defs g h ∧
      ((∃ e', e.drillDown (Target.node id).text = (.ok (some h), e') ∧ e'.Shows defs h) ∨
        ∃ error, h.markup defs = .error error ∧
          e.drillDown (Target.node id).text = (.error error, e.tell (some h))) := by
  obtain ⟨h, step, rfl⟩ := (node_mem_ofMarkup_iff hs.markup).mp offered
  have located := locate_of_leadsTo hw few hg step
  refine ⟨h, step, ?_⟩
  cases hm : h.markup defs with
  | ok m => exact .inl (drillDown_of_markup hs located hm)
  | error error => exact .inr ⟨error, rfl, drillDown_of_error hs located hm⟩

variable (hf : f ∈ w.nodes) (built : ∀ x d, defs.find? x = some d → d ∈ w.nodes)

include hf built

/-- After any number of clicks, something that can be seen is on display. -/
theorem Clicks.exists_shows (hs : e.Shows defs f) (clicks : Clicks e e') :
    ∃ g, e'.Shows defs g ∧ Visitable defs f g := by
  induction clicks with
  | refl => exact ⟨f, hs, .root⟩
  | @click e' id _ offered ih =>
      obtain ⟨g, shown, seen⟩ := ih
      have hg := seen.mem_nodes hw.numbered hf built
      obtain ⟨h, step, ⟨e'', moved, shown'⟩ | ⟨error, -, stays⟩⟩ :=
        drillDown_of_offered hw few hg shown offered
      · rw [moved]
        exact ⟨h, shown', seen.leadsTo step ⟨_, shown'.markup⟩⟩
      · rw [stays]
        exact ⟨g, ⟨shown.definitions, shown.current, shown.markup⟩, seen⟩

/-- What one click leads to is shown by that click, if there is markup for it. -/
theorem Clicks.exists_of_leadsTo (hs : e.Shows defs f) (clicks : Clicks e e')
    (hg : e'.current = some g) (step : LeadsTo defs g h) (rendered : ∃ m, h.markup defs = .ok m) :
    ∃ e'', Clicks e e'' ∧ e''.current = some h := by
  obtain ⟨k, shown, seen⟩ := clicks.exists_shows hw few hf built hs
  rw [shown.current] at hg
  cases hg
  obtain ⟨m, hm⟩ := rendered
  have located := locate_of_leadsTo hw few (seen.mem_nodes hw.numbered hf built) step
  have offered := (node_mem_ofMarkup_iff shown.markup).mpr ⟨h, step, rfl⟩
  obtain ⟨e'', moved, shown'⟩ := drillDown_of_markup shown located hm
  refine ⟨e'', ?_, shown'.current⟩
  have after := clicks.click offered
  rwa [moved] at after

/-- What can be seen is on display after some clicks, and nothing else ever is. -/
theorem exists_clicks_iff (hs : e.Shows defs f) :
    (∃ e', Clicks e e' ∧ e'.current = some g) ↔ Visitable defs f g := by
  constructor
  · rintro ⟨e', clicks, hg⟩
    obtain ⟨k, shown, seen⟩ := clicks.exists_shows hw few hf built hs
    rw [shown.current] at hg
    cases hg
    exact seen
  · intro seen
    have rendered : ∃ m, f.markup defs = .ok m := ⟨_, hs.markup⟩
    induction seen with
    | root => exact ⟨e, .refl, hs.current⟩
    | child hg hh ih =>
        obtain ⟨e', clicks, current⟩ := ih
        exact clicks.exists_of_leadsTo hw few hf built hs current (.child hh)
          ((hg.child hh).exists_markup rendered)
    | definition hg hd hb defined ih =>
        obtain ⟨e', clicks, current⟩ := ih
        exact clicks.exists_of_leadsTo hw few hf built hs current (.definition hd hb)
          (exists_markup_iff.mpr defined)

/-- After any number of clicks, one more click on an offered id fails exactly if a variable is on
display whose definition mentions a name without a definition, and it stays on display then. -/
theorem Clicks.drillDown_error_iff (hs : e.Shows defs f) (clicks : Clicks e e')
    (offered : .node id ∈ Target.ofMarkup e'.markup) :
    ((∃ error, (e'.drillDown (Target.node id).text).1 = .error error) ↔
      ∃ i x d b, e'.current = some (.var i x) ∧ defs.find? x = some d ∧ d.fixedBody? = some b ∧
        ∃ y ∈ b.mentioned, defs.find? y = none) ∧
    ∀ error, (e'.drillDown (Target.node id).text).1 = .error error →
      (e'.drillDown (Target.node id).text).2.current = e'.current ∧
      (e'.drillDown (Target.node id).text).2.markup = e'.markup := by
  obtain ⟨g, shown, seen⟩ := clicks.exists_shows hw few hf built hs
  obtain ⟨h, step, ⟨e'', moved, shown'⟩ | ⟨error, herror, stays⟩⟩ :=
    drillDown_of_offered hw few (seen.mem_nodes hw.numbered hf built) shown offered
  · rw [moved]
    refine ⟨⟨?_, ?_⟩, ?_⟩
    · rintro ⟨error, failed⟩
      cases failed
    · rintro ⟨i, x, d, b, current, hd, hb, y, hy, undefined⟩
      -- The click was on this variable, so its body is what there is markup for.
      rw [shown.current] at current
      cases current
      obtain rfl : h = b := by
        cases step with
        | child hh => cases hh
        | definition hd' hb' =>
            obtain rfl := Option.some.inj (hd.symm.trans hd')
            exact Option.some.inj (hb'.symm.trans hb)
      obtain ⟨d', hd'⟩ := exists_markup_iff.mp ⟨_, shown'.markup⟩ y hy
      rw [undefined] at hd'
      cases hd'
    · rintro error failed
      cases failed
  · rw [stays]
    refine ⟨⟨fun _ => ?_, fun _ => ⟨error, rfl⟩⟩, fun _ _ => ⟨rfl, rfl⟩⟩
    obtain ⟨i, x, d, rfl, hd, hb, undefined⟩ :=
      exists_undefined_of_error ⟨_, shown.markup⟩ step herror
    exact ⟨i, x, d, h, shown.current, hd, hb, undefined⟩

end Workshop

/-- **Clicks lead to what can be seen, and nowhere else.**  From a formula on display, any number of
clicks on ids that the markup offers lead to the formula, its children, the bodies of the fixed
points that variables are defined as, if all names in them are defined, and so on.  So everything
below the formula can be visited, and nothing is shown but what is below it or below a fixed point
that is a definition.  A click on an offered id fails exactly at a variable whose definition
mentions a name without a definition, and then the variable stays on display. -/
theorem clicks_show_visitable {w : Workshop} (hw : w.Reachable)
    (few : w.nodes.length ≤ UInt64.size) (hf : f ∈ w.nodes)
    (built : ∀ x d, defs.find? x = some d → d ∈ w.nodes) {start : Explorer}
    (same : start.definitions = defs) (shown : start.display (some f) = .ok e) :
    (∀ g, (∃ e', Clicks e e' ∧ e'.current = some g) ↔ Visitable defs f g) ∧
    (∀ g ∈ f.preorder, ∃ e', Clicks e e' ∧ e'.current = some g) ∧
    (∀ e', Clicks e e' → ∃ g, e'.current = some g ∧ (g ∈ f.preorder ∨
      ∃ x d b, defs.find? x = some d ∧ d.fixedBody? = some b ∧ g ∈ b.preorder)) ∧
    ∀ e' id, Clicks e e' → .node id ∈ Target.ofMarkup e'.markup →
      ((∃ error, (e'.drillDown (Target.node id).text).1 = .error error) ↔
        ∃ i x d b, e'.current = some (.var i x) ∧ defs.find? x = some d ∧ d.fixedBody? = some b ∧
          ∃ y ∈ b.mentioned, defs.find? y = none) ∧
      ∀ error, (e'.drillDown (Target.node id).text).1 = .error error →
        (e'.drillDown (Target.node id).text).2.current = e'.current ∧
        (e'.drillDown (Target.node id).text).2.markup = e'.markup := by
  subst same
  have hs := shows_of_display shown
  have exactly {g : Formula} := exists_clicks_iff (g := g) hw few hf built hs
  refine ⟨fun g => exactly, fun g hg => ?_, fun e' clicks => ?_, fun e' id clicks offered => ?_⟩
  · exact exactly.mpr (Visitable.root.of_mem_preorder hg)
  · obtain ⟨g, shown', seen⟩ := clicks.exists_shows hw few hf built hs
    exact ⟨g, shown'.current, seen.mem_preorder⟩
  · exact clicks.drillDown_error_iff hw few hf built hs offered

/-- From a variable that is defined by recursion, a click leads into the definition. -/
theorem clicks_show_visitable_recursive :
    let x := var ⟨0⟩ "X"
    let body := modal ⟨1⟩ .box .any x
    let d := fixed ⟨2⟩ .greatest "X" body
    let defs : Definitions := ⟨[("X", d)]⟩
    let w : Workshop := ⟨3, [x, body, d]⟩
    (w.Reachable ∧ x ∈ w.nodes ∧ ∀ y d, defs.find? y = some d → d ∈ w.nodes) ∧
      ∃ e, (new defs).display (some x) = .ok e ∧ ∃ e', Clicks e e' ∧ e'.current = some body := by
  intro x body d defs w
  have one : Workshop.Reachable ⟨1, [x]⟩ :=
    Workshop.Reachable.empty.construct (.var "X") (by simp [Construction.operands])
  have two : Workshop.Reachable ⟨2, [x, body]⟩ :=
    one.construct (.modal .box .any x) (by simp [Construction.operands])
  have reachable : w.Reachable :=
    two.construct (.fixed .greatest "X" body) (by simp [Construction.operands])
  have hx : x ∈ w.nodes := by simp [w]
  have known : defs.find? "X" = some d := rfl
  have built : ∀ y k, defs.find? y = some k → k ∈ w.nodes := by
    intro y k hk
    rw [Definitions.find?, Definitions.get, Definitions.get] at hk
    split at hk
    · rw [← Option.some.inj hk]
      simp [w]
    · cases hk
  obtain ⟨m, hm⟩ : ∃ m, x.markup defs = .ok m := ⟨_, rfl⟩
  have shown := display_of_markup (e := new defs) hm
  refine ⟨⟨reachable, hx, built⟩, _, shown, ?_⟩
  obtain ⟨exactly, -⟩ := clicks_show_visitable reachable (by decide) hx built rfl shown
  refine (exactly body).mpr (.definition .root known rfl fun y hy => ?_)
  obtain rfl : y = "X" := by simpa [body, x] using hy
  exact ⟨d, known⟩

end Explorer

end ProcessLogic
