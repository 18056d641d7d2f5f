import ProcessLogic.Proofs.Formula.Preorder
import ProcessLogic.Proofs.Formula.Sign
import ProcessLogic.Proofs.Formula.Skeleton

/-!
# The text of a formula can be read

Formulas are written with few parentheses, and still their structure can be told from their text, up
to what a skeleton leaves out.  This is seen by reading: a machine takes the signs of a formula one
after the other, and has the skeleton of the formula at the end.

The machine keeps the operands of the disjunction that is being read, and of the conjunction that is
its last operand so far, and what the operators in front of the next operand make of it.  An opening
parenthesis begins with a new set of these.  Since a conjunction takes operands up as they come, the
separator of conjunctions means nothing to it; that of disjunctions ends the conjunction.
-/

namespace ProcessLogic

namespace Sign

/-- A row of signs, in parentheses if they are called for. -/
def enclose (wrap : Bool) (ss : List Sign) : List Sign :=
  if wrap then opening :: ss ++ [closing] else ss

@[simp] theorem enclose_true (ss : List Sign) : enclose true ss = opening :: ss ++ [closing] := rfl

theorem spelling_enclose (wrap : Bool) {ss : List Sign} {text : String}
    (h : ss.flatMap spelling = text.toList) :
    (enclose wrap ss).flatMap spelling = (parenthesize wrap text).toList := by
  cases wrap with
  | false => exact h
  | true =>
      rw [enclose_true, List.flatMap_append, List.flatMap_cons, h, parenthesize_true,
        String.toList_append, String.toList_append]
      rfl

theorem Row.append {ss ts : List Sign} {t : Sign} (hs : Row ss) (ht : Row (t :: ts))
    (ends : t.endsAtom = true) : Row (ss ++ t :: ts) where
  legible := List.forall_mem_append.mpr ⟨hs.legible, ht.legible⟩
  chain := by
    refine hs.chain.append ht.chain fun s _ t' ht' _ => ?_
    obtain rfl := Option.some.inj ht'
    exact ends

theorem Row.cons {s : Sign} {ss : List Sign} (hs : Row ss) (legible : s.Legible)
    (other : s.isAtom = false) : Row (s :: ss) where
  legible := List.forall_mem_cons.mpr ⟨legible, hs.legible⟩
  chain := by
    refine hs.chain.cons fun t _ atom => ?_
    rw [other] at atom
    cases atom

theorem Row.enclose {ss : List Sign} (h : Row ss) (wrap : Bool) : Row (enclose wrap ss) := by
  have alone : Row [closing] := ⟨by simp [Legible], List.isChain_singleton _⟩
  cases wrap with
  | false => exact h
  | true => exact (h.append alone rfl).cons trivial rfl

end Sign

namespace Formula

open Sign

/-! ### Writing in signs -/

mutual

/-- The signs a formula is written with. -/
def signs : Formula → List Sign
  | .truth _ value => [.truth value]
  | .connective _ op first rest => enclose (op.wraps first) first.signs ++ restSigns op rest
  | .modal _ op actions sub => .modal op actions.text :: enclose sub.isConnective sub.signs
  | .fixed _ op name body => .binder op name :: enclose body.isConnective body.signs
  | .var _ name => [.var name]

/-- The signs of all operands of a connective but the first. -/
def restSigns (op : Connective) : List Formula → List Sign
  | [] => []
  | f :: fs => .joint op :: enclose (op.wraps f) f.signs ++ restSigns op fs

end

theorem intercalate_cons_eq_append {α : Type} (sep first : List α) (others : List (List α)) :
    sep.intercalate (first :: others) = first ++ others.flatMap (sep ++ ·) := by
  induction others generalizing first with
  | nil => rw [List.intercalate_singleton, List.flatMap_nil, List.append_nil]
  | cons next others ih =>
      rw [List.intercalate_cons_cons, ih, List.flatMap_cons, List.append_assoc, List.append_assoc]

theorem spelling_restSigns {op : Connective} {fs : List Formula}
    (h : ∀ f ∈ fs, f.signs.flatMap spelling = f.text.toList) :
    (restSigns op fs).flatMap spelling = (fs.map fun f =>
      (parenthesize (op.wraps f) f.text).toList).flatMap (op.separator.toList ++ ·) := by
  induction fs with
  | nil => rfl
  | cons f fs ih =>
      obtain ⟨hf, hfs⟩ := List.forall_mem_cons.mp h
      rw [restSigns, List.flatMap_append, List.flatMap_cons, spelling_enclose _ hf, ih hfs,
        List.map_cons, List.flatMap_cons]
      rfl

/-- The text of a formula is that of its signs. -/
theorem spelling_signs (f : Formula) : f.signs.flatMap spelling = f.text.toList := by
  induction f using Formula.induction with
  | truth i v =>
      rw [signs, text_truth, List.flatMap_singleton]
      rfl
  | connective i op f fs ihf ihfs =>
      rw [signs, text_connective, List.flatMap_append, spelling_enclose _ ihf,
        spelling_restSigns ihfs, String.toList_intercalate, List.map_cons, List.map_cons,
        List.map_map, intercalate_cons_eq_append]
      rfl
  | modal i op a f ih =>
      rw [signs, text_modal, List.flatMap_cons, spelling_enclose _ ih, String.toList_append]
      rfl
  | fixed i op x f ih =>
      rw [signs, text_fixed, List.flatMap_cons, spelling_enclose _ ih, String.toList_append]
      rfl
  | var i x =>
      rw [signs, text_var, List.flatMap_singleton]
      rfl

/-- What the root of a formula is written with can be told from its text. -/
def LegibleRoot : Formula → Prop
  | .truth _ _ | .connective _ _ _ _ => True
  | .modal _ _ actions _ => Unbracketed actions.text
  | .fixed _ _ name _ => IsName name
  | .var _ name => IsName name ∧ ∀ value, name ≠ truthText value

/-- Names are not empty, and contain neither spaces nor brackets; variables do not look like
constants; and actions contain no brackets that modalities are written with. -/
def Legible (f : Formula) : Prop := ∀ g ∈ f.preorder, g.LegibleRoot

instance : DecidablePred LegibleRoot
  | .truth _ _ | .connective _ _ _ _ => .isTrue trivial
  | .modal _ _ actions _ => inferInstanceAs (Decidable (Unbracketed actions.text))
  | .fixed _ _ name _ => inferInstanceAs (Decidable (IsName name))
  | .var _ name => inferInstanceAs (Decidable (IsName name ∧ ∀ value, name ≠ truthText value))

instance : DecidablePred Legible := fun f =>
  (List.decidableBAll _ _ : Decidable (∀ g ∈ f.preorder, g.LegibleRoot))

theorem Legible.root {f : Formula} (h : f.Legible) : f.LegibleRoot := h f f.self_mem_preorder

theorem Legible.child {f g : Formula} (h : f.Legible) (hg : g ∈ f.children) : g.Legible :=
  fun k hk => h k (mem_preorder_trans (mem_preorder_of_child hg) hk)

theorem row_append_restSigns {op : Connective} {fs : List Formula} (h : ∀ f ∈ fs, Row f.signs)
    {ss : List Sign} (hs : Row ss) : Row (ss ++ restSigns op fs) := by
  induction fs generalizing ss with
  | nil =>
      rw [restSigns, List.append_nil]
      exact hs
  | cons f fs ih =>
      obtain ⟨hf, hfs⟩ := List.forall_mem_cons.mp h
      have next : Row (.joint op :: enclose (op.wraps f) f.signs) :=
        (hf.enclose _).cons trivial rfl
      rw [restSigns, ← List.append_assoc]
      exact ih hfs (hs.append next rfl)

/-- The signs of a legible formula can be told from its text. -/
theorem row_signs (f : Formula) (h : f.Legible) : Row f.signs := by
  induction f using Formula.induction with
  | truth i v =>
      rw [signs]
      exact ⟨by simp [Sign.Legible], List.isChain_singleton _⟩
  | connective i op f fs ihf ihfs =>
      have hf := ihf (h.child List.mem_cons_self)
      have hfs := fun g hg => ihfs g hg (h.child (List.mem_cons_of_mem f hg))
      rw [signs]
      exact row_append_restSigns hfs (hf.enclose _)
  | modal i op a f ih =>
      rw [signs]
      exact ((ih (h.child (List.mem_singleton_self f))).enclose _).cons h.root rfl
  | fixed i op x f ih =>
      rw [signs]
      exact ((ih (h.child (List.mem_singleton_self f))).enclose _).cons h.root rfl
  | var i x =>
      rw [signs]
      exact ⟨List.forall_mem_singleton.mpr h.root, List.isChain_singleton _⟩

end Formula

/-! ### Reading signs -/

open Skeleton Sign

namespace Reading

/-- What has been read since the innermost open parenthesis. -/
structure Frame where
  /-- The operands of the disjunction, but for the last one. -/
  disjuncts : List Skeleton := []
  /-- The operands of the conjunction that is the last operand of the disjunction so far. -/
  conjuncts : List Skeleton := []
  /-- What the operators in front of the next operand make of it. -/
  pending : Skeleton → Skeleton := id

/-- The innermost parenthesis comes first; the last frame is that of the whole formula. -/
structure State where
  frame : Frame := {}
  outer : List Frame := []

namespace Frame

/-- The next operator in front of an operand. -/
def operator (fr : Frame) (op : Skeleton → Skeleton) : Frame :=
  { fr with pending := fr.pending ∘ op }

/-- The next operand. -/
def operand (fr : Frame) (s : Skeleton) : Frame :=
  { fr with conjuncts := fr.conjuncts ++ (fr.pending s).operands .conjunction, pending := id }

/-- All operands of the disjunction. -/
def allDisjuncts (fr : Frame) : List Skeleton :=
  fr.disjuncts ++ (join .conjunction fr.conjuncts).operands .disjunction

/-- The skeleton of what has been read. -/
def value (fr : Frame) : Skeleton := join .disjunction fr.allDisjuncts

end Frame

/-- Takes one sign. -/
def State.step : State → Sign → State
  | ⟨fr, outer⟩, .truth value => ⟨fr.operand (.truth value), outer⟩
  | ⟨fr, outer⟩, .var name => ⟨fr.operand (.var name), outer⟩
  | ⟨fr, outer⟩, .binder op name => ⟨fr.operator (.fixed op name), outer⟩
  | ⟨fr, outer⟩, .modal op actions => ⟨fr.operator (.modal op actions), outer⟩
  | ⟨fr, outer⟩, .opening => ⟨{}, fr :: outer⟩
  | ⟨fr, next :: outer⟩, .closing => ⟨next.operand fr.value, outer⟩
  | ⟨fr, []⟩, .closing => ⟨fr, []⟩
  -- The conjunction goes on with the next operand.
  | s, .joint .conjunction => s
  | ⟨fr, outer⟩, .joint .disjunction => ⟨⟨fr.allDisjuncts, [], id⟩, outer⟩

/-- Takes signs one after the other. -/
def State.run (s : State) (signs : List Sign) : State := signs.foldl State.step s

theorem State.run_cons (s : State) (t : Sign) (ts : List Sign) :
    s.run (t :: ts) = (s.step t).run ts := rfl

theorem State.run_append (s : State) (ts us : List Sign) :
    s.run (ts ++ us) = (s.run ts).run us := List.foldl_append

/-- What the machine makes of the signs of a formula, where they may stand without parentheses. -/
structure Reads (f : Formula) : Prop where
  /-- Behind an operator there may be anything but connectives. -/
  operand (h : f.isConnective = false) (fr : Frame) (outer : List Frame) :
    State.run ⟨fr, outer⟩ f.signs = ⟨fr.operand f.skeleton, outer⟩
  /-- In a conjunction there may be anything but disjunctions. -/
  conjunct (h : f.isDisjunction = false) (ds cs : List Skeleton) (outer : List Frame) :
    State.run ⟨⟨ds, cs, id⟩, outer⟩ f.signs = ⟨⟨ds, cs ++ f.operands .conjunction, id⟩, outer⟩
  /-- In a disjunction there may be anything. -/
  disjunct (ds : List Skeleton) (outer : List Frame) :
    ∃ fr : Frame, State.run ⟨⟨ds, [], id⟩, outer⟩ f.signs = ⟨fr, outer⟩ ∧
      fr.allDisjuncts = ds ++ f.operands .disjunction

namespace Reads

variable {f : Formula} {fs : List Formula}

/-- What is read in parentheses is an operand. -/
theorem run_parentheses (h : Reads f) (fr : Frame) (outer : List Frame) :
    State.run ⟨fr, outer⟩ (enclose true f.signs) = ⟨fr.operand f.skeleton, outer⟩ := by
  obtain ⟨inner, hrun, hvalue⟩ := h.disjunct [] (fr :: outer)
  have value : inner.value = f.skeleton := by
    rw [Frame.value, hvalue, List.nil_append, Formula.join_operands]
  rw [enclose_true, State.run_append, State.run_cons]
  change (State.run ⟨⟨[], [], id⟩, fr :: outer⟩ f.signs).run [closing] = _
  rw [hrun, ← value]
  rfl

/-- Behind an operator. -/
theorem run_operand (h : Reads f) (fr : Frame) (outer : List Frame) :
    State.run ⟨fr, outer⟩ (enclose f.isConnective f.signs) = ⟨fr.operand f.skeleton, outer⟩ := by
  cases hc : f.isConnective with
  | true => exact h.run_parentheses fr outer
  | false => exact h.operand hc fr outer

/-- As an operand of a conjunction. -/
theorem run_conjunct (h : Reads f) (ds cs : List Skeleton) (outer : List Frame) :
    State.run ⟨⟨ds, cs, id⟩, outer⟩ (enclose (Connective.conjunction.wraps f) f.signs)
      = ⟨⟨ds, cs ++ f.operands .conjunction, id⟩, outer⟩ := by
  rw [Connective.wraps]
  cases hd : f.isDisjunction with
  | true => exact h.run_parentheses _ outer
  | false => exact h.conjunct hd ds cs outer

theorem run_conjuncts (h : ∀ f ∈ fs, Reads f) (ds cs : List Skeleton) (outer : List Frame) :
    State.run ⟨⟨ds, cs, id⟩, outer⟩ (Formula.restSigns .conjunction fs)
      = ⟨⟨ds, cs ++ fs.flatMap (Formula.operands .conjunction), id⟩, outer⟩ := by
  induction fs generalizing cs with
  | nil =>
      rw [Formula.restSigns, List.flatMap_nil, List.append_nil]
      rfl
  | cons f fs ih =>
      obtain ⟨hf, hfs⟩ := List.forall_mem_cons.mp h
      rw [Formula.restSigns, List.cons_append, State.run_cons, State.run_append]
      -- The separator changes nothing.
      change (State.run ⟨⟨ds, cs, id⟩, outer⟩ _).run _ = _
      rw [hf.run_conjunct, ih hfs, List.flatMap_cons, List.append_assoc]

theorem run_disjuncts (h : ∀ f ∈ fs, Reads f) (fr : Frame) (outer : List Frame) :
    ∃ fr' : Frame,
      State.run ⟨fr, outer⟩ (Formula.restSigns .disjunction fs) = ⟨fr', outer⟩ ∧
      fr'.allDisjuncts = fr.allDisjuncts ++ fs.flatMap (Formula.operands .disjunction) := by
  induction fs generalizing fr with
  | nil =>
      refine ⟨fr, ?_, ?_⟩
      · rw [Formula.restSigns]
        rfl
      · rw [List.flatMap_nil, List.append_nil]
  | cons f fs ih =>
      obtain ⟨hf, hfs⟩ := List.forall_mem_cons.mp h
      obtain ⟨next, hrun, hnext⟩ := hf.disjunct fr.allDisjuncts outer
      obtain ⟨last, hruns, hlast⟩ := ih hfs next
      refine ⟨last, ?_, ?_⟩
      · rw [Formula.restSigns, List.cons_append, State.run_cons, State.run_append]
        -- The separator ends the conjunction, so the operand begins where it may be anything.
        change (State.run ⟨⟨fr.allDisjuncts, [], id⟩, outer⟩ f.signs).run _ = _
        rw [hrun, hruns]
      · rw [hlast, hnext, List.flatMap_cons, List.append_assoc]

/-- In a disjunction, what may stand in a conjunction is an operand of its own. -/
theorem disjunct_of_conjunct
    (conjunct : ∀ (ds cs : List Skeleton) (outer : List Frame),
      State.run ⟨⟨ds, cs, id⟩, outer⟩ f.signs = ⟨⟨ds, cs ++ f.operands .conjunction, id⟩, outer⟩)
    (ds : List Skeleton) (outer : List Frame) :
    ∃ fr : Frame, State.run ⟨⟨ds, [], id⟩, outer⟩ f.signs = ⟨fr, outer⟩ ∧
      fr.allDisjuncts = ds ++ f.operands .disjunction := by
  refine ⟨_, conjunct ds [] outer, ?_⟩
  rw [Frame.allDisjuncts, List.nil_append, Formula.join_operands]
  rfl

/-- What may stand behind an operator may stand anywhere. -/
theorem of_operand (operand : ∀ (fr : Frame) (outer : List Frame),
    State.run ⟨fr, outer⟩ f.signs = ⟨fr.operand f.skeleton, outer⟩) : Reads f where
  operand _ := operand
  conjunct _ ds cs outer := operand ⟨ds, cs, id⟩ outer
  disjunct := disjunct_of_conjunct fun ds cs outer => operand ⟨ds, cs, id⟩ outer

theorem conjunction (i : FormulaId) (hf : Reads f) (hfs : ∀ g ∈ fs, Reads g) :
    Reads (.connective i .conjunction f fs) := by
  have conjunct (ds cs : List Skeleton) (outer : List Frame) :
      State.run ⟨⟨ds, cs, id⟩, outer⟩ (Formula.connective i .conjunction f fs).signs = ⟨⟨ds,
        cs ++ (Formula.connective i .conjunction f fs).operands .conjunction, id⟩, outer⟩ := by
    rw [Formula.signs, State.run_append, hf.run_conjunct, run_conjuncts hfs,
      Formula.operands_connective, List.flatMap_cons, List.append_assoc]
  refine ⟨fun h => ?_, fun _ => conjunct, disjunct_of_conjunct conjunct⟩
  cases h

theorem disjunction (i : FormulaId) (hf : Reads f) (hfs : ∀ g ∈ fs, Reads g) :
    Reads (.connective i .disjunction f fs) where
  operand h := by cases h
  conjunct h := by cases h
  disjunct ds outer := by
    obtain ⟨fr, hrun, hfr⟩ := hf.disjunct ds outer
    obtain ⟨last, hruns, hlast⟩ := run_disjuncts hfs fr outer
    refine ⟨last, ?_, ?_⟩
    · rw [Formula.signs, State.run_append]
      change State.run (State.run _ f.signs) _ = _
      rw [hrun, hruns]
    · rw [hlast, hfr, Formula.operands_connective, List.flatMap_cons, List.append_assoc]

end Reads

/-- The machine reads every formula as its skeleton. -/
theorem reads (f : Formula) : Reads f := by
  induction f using Formula.induction with
  | truth i v =>
      refine .of_operand fun fr outer => ?_
      rw [Formula.signs, Formula.skeleton_truth]
      rfl
  | connective i op f fs ihf ihfs =>
      cases op with
      | disjunction => exact .disjunction i ihf ihfs
      | conjunction => exact .conjunction i ihf ihfs
  | modal i op a f ih =>
      refine .of_operand fun fr outer => ?_
      rw [Formula.signs, State.run_cons, State.step, ih.run_operand, Formula.skeleton_modal]
      rfl
  | fixed i op x f ih =>
      refine .of_operand fun fr outer => ?_
      rw [Formula.signs, State.run_cons, State.step, ih.run_operand, Formula.skeleton_fixed]
      rfl
  | var i x =>
      refine .of_operand fun fr outer => ?_
      rw [Formula.signs, Formula.skeleton_var]
      rfl

/-- The skeleton that signs are read as. -/
def read (signs : List Sign) : Skeleton := (State.run {} signs).frame.value

theorem read_signs (f : Formula) : read f.signs = f.skeleton := by
  obtain ⟨fr, hrun, hfr⟩ := (reads f).disjunct [] []
  rw [read, hrun, Frame.value, hfr, List.nil_append, Formula.join_operands]

end Reading

namespace Formula

/-- **Parentheses are enough.**  Formulas that are written alike have one skeleton: they are the
same but for ids, for connectives inside connectives of the same kind, and for connectives of one
operand.  Modalities are the same if their operators and the texts of their actions are. -/
theorem skeleton_eq_of_text_eq {f g : Formula} (hf : f.Legible) (hg : g.Legible)
    (same : f.text = g.text) : f.skeleton = g.skeleton := by
  have spelled : f.signs.flatMap spelling = g.signs.flatMap spelling := by
    rw [spelling_signs, spelling_signs, same]
  have signs : f.signs = g.signs :=
    eq_of_spelling_eq (row_signs f hf) (row_signs g hg) spelled
  rw [← Reading.read_signs f, ← Reading.read_signs g, signs]

/-- Conjunctions that are nested in different ways are written alike. -/
theorem skeleton_eq_of_text_eq_nested :
    let x := var ⟨0⟩ "X"
    let box := modal ⟨2⟩ .box (.single "a b") (truth ⟨1⟩ true)
    let f := connective ⟨4⟩ .conjunction x [connective ⟨3⟩ .conjunction box [x]]
    let g := connective ⟨6⟩ .conjunction (connective ⟨5⟩ .conjunction x [box]) [x]
    (f.Legible ∧ g.Legible ∧ f.text = g.text) ∧ f.skeleton = g.skeleton := by
  intro x box f g
  have hf : f.Legible := by decide
  have hg : g.Legible := by decide
  have same : f.text = g.text := by decide
  exact ⟨⟨hf, hg, same⟩, skeleton_eq_of_text_eq hf hg same⟩

end Formula

end ProcessLogic
