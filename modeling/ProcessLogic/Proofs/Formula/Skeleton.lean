import ProcessLogic.Formula.Text

/-!
# Skeletons

The skeleton of a formula is what is left of it when the ids of its nodes are forgotten, and its
connectives are brought into one form: the operands of a connective inside one of the same kind
become operands of the outer one, and a connective of one operand is replaced by this operand.

Both are done from below, by `Skeleton.operands` and `Skeleton.join`, and nothing remains to be done
after that: skeletons of formulas are `Skeleton.Normal`.
-/

namespace ProcessLogic

/-- A formula without ids.  Modalities are told apart by their operators and by what is written
between the brackets. -/
inductive Skeleton where
  | truth (value : Bool)
  | connective (op : Connective) (parts : List Skeleton)
  | modal (op : Modality) (actions : String) (sub : Skeleton)
  | fixed (op : FixedPoint) (name : String) (body : Skeleton)
  | var (name : String)

namespace Skeleton

/-- What a skeleton contributes to a connective that it is an operand of. -/
def operands (op : Connective) : Skeleton → List Skeleton
  | connective op' parts => if op' = op then parts else [connective op' parts]
  | s => [s]

/-- What a connective comes to; if there is only one operand, to this operand. -/
def join (op : Connective) : List Skeleton → Skeleton
  | [s] => s
  | parts => connective op parts

@[simp] theorem join_singleton (op : Connective) (s : Skeleton) : join op [s] = s := rfl

theorem operands_same (op : Connective) (parts : List Skeleton) :
    (connective op parts).operands op = parts := if_pos rfl

theorem operands_other {op op' : Connective} (h : op' ≠ op) (parts : List Skeleton) :
    (connective op' parts).operands op = [connective op' parts] := if_neg h

theorem join_of_length_ne_one {op : Connective} {parts : List Skeleton} (h : parts.length ≠ 1) :
    join op parts = connective op parts := by
  match parts, h with
  | [], _ => rfl
  | _ :: _ :: _, _ => rfl

/-- Every connective has two operands or more, and none of them is one of the same kind. -/
inductive Normal : Skeleton → Prop
  | truth {v : Bool} : Normal (truth v)
  | connective {op : Connective} {parts : List Skeleton} (several : 2 ≤ parts.length)
      (apart : ∀ p ∈ parts, p.operands op = [p]) (parts_normal : ∀ p ∈ parts, Normal p) :
      Normal (connective op parts)
  | modal {op : Modality} {a : String} {s : Skeleton} (h : Normal s) : Normal (modal op a s)
  | fixed {op : FixedPoint} {x : String} {s : Skeleton} (h : Normal s) : Normal (fixed op x s)
  | var {x : String} : Normal (var x)

variable {op : Connective} {s p : Skeleton} {parts : List Skeleton}

/-- What is normal is either an operand as it is, or a connective that gives up its operands. -/
theorem Normal.operands_eq (h : Normal s) (op : Connective) :
    s.operands op = [s] ∨ s = .connective op (s.operands op) ∧ 2 ≤ (s.operands op).length := by
  cases h with
  | @connective op' parts several apart normal =>
      by_cases same : op' = op
      · subst same
        rw [operands_same]
        exact .inr ⟨rfl, several⟩
      · exact .inl (operands_other same parts)
  | _ => exact .inl rfl

theorem Normal.join_operands (h : Normal s) (op : Connective) : join op (s.operands op) = s := by
  rcases h.operands_eq op with alone | ⟨connective, several⟩
  · rw [alone, join_singleton]
  · rw [join_of_length_ne_one (by omega)]
    exact connective.symm

/-- What is normal contributes normal operands, which are operands as they are. -/
theorem Normal.of_mem_operands (h : Normal s) (hp : p ∈ s.operands op) :
    Normal p ∧ p.operands op = [p] := by
  rcases h.operands_eq op with alone | ⟨eq, -⟩
  · rw [alone, List.mem_singleton] at hp
    subst hp
    exact ⟨h, alone⟩
  · rw [eq] at h
    cases h with
    | connective several apart normal => exact ⟨normal p hp, apart p hp⟩

theorem Normal.operands_ne_nil (h : Normal s) : s.operands op ≠ [] := by
  rcases h.operands_eq op with alone | ⟨-, several⟩
  · rw [alone]
    exact List.cons_ne_nil _ _
  · exact List.ne_nil_of_length_pos (by omega)

theorem normal_join (nonempty : parts ≠ []) (h : ∀ p ∈ parts, Normal p ∧ p.operands op = [p]) :
    Normal (join op parts) := by
  by_cases one : parts.length = 1
  · obtain ⟨p, rfl⟩ := List.length_eq_one_iff.mp one
    exact (h p (List.mem_singleton_self p)).1
  · rw [join_of_length_ne_one one]
    have pos := List.length_pos_iff.mpr nonempty
    exact .connective (by omega) (fun p hp => (h p hp).2) fun p hp => (h p hp).1

theorem operands_join (h : ∀ p ∈ parts, p.operands op = [p]) :
    (join op parts).operands op = parts := by
  by_cases one : parts.length = 1
  · obtain ⟨p, rfl⟩ := List.length_eq_one_iff.mp one
    exact h p (List.mem_singleton_self p)
  · rw [join_of_length_ne_one one, operands_same]

end Skeleton

namespace Formula

open Skeleton

mutual

/-- The skeleton of a formula. -/
def skeleton : Formula → Skeleton
  | .truth _ value => .truth value
  | .connective _ op first rest =>
      join op (first.skeleton.operands op ++ restOperands op rest)
  | .modal _ op actions sub => .modal op actions.text sub.skeleton
  | .fixed _ op name body => .fixed op name body.skeleton
  | .var _ name => .var name

/-- What formulas contribute to a connective that they are operands of. -/
def restOperands (op : Connective) : List Formula → List Skeleton
  | [] => []
  | f :: fs => f.skeleton.operands op ++ restOperands op fs

end

/-- What a formula contributes to a connective that it is an operand of. -/
def operands (op : Connective) (f : Formula) : List Skeleton := f.skeleton.operands op

theorem restOperands_eq_flatMap (op : Connective) (fs : List Formula) :
    restOperands op fs = fs.flatMap (operands op) := by
  induction fs with
  | nil => rw [restOperands, List.flatMap_nil]
  | cons f fs ih => rw [restOperands, ih, List.flatMap_cons, operands]

@[simp] theorem skeleton_truth (i : FormulaId) (v : Bool) : (truth i v).skeleton = .truth v := by
  rw [skeleton]
@[simp] theorem skeleton_connective (i : FormulaId) (op : Connective) (f : Formula)
    (fs : List Formula) :
    (connective i op f fs).skeleton = join op ((f :: fs).flatMap (operands op)) := by
  rw [skeleton, restOperands_eq_flatMap, List.flatMap_cons, operands]
@[simp] theorem skeleton_modal (i : FormulaId) (op : Modality) (a : Actions) (f : Formula) :
    (modal i op a f).skeleton = .modal op a.text f.skeleton := by
  rw [skeleton]
@[simp] theorem skeleton_fixed (i : FormulaId) (op : FixedPoint) (x : String) (f : Formula) :
    (fixed i op x f).skeleton = .fixed op x f.skeleton := by
  rw [skeleton]
@[simp] theorem skeleton_var (i : FormulaId) (x : String) : (var i x).skeleton = .var x := by
  rw [skeleton]

/-- In a skeleton there is nothing left to splice or to unwrap. -/
theorem normal_skeleton (f : Formula) : Normal f.skeleton := by
  induction f using Formula.induction with
  | truth i v => exact skeleton_truth i v ▸ .truth
  | connective i op f fs ihf ihfs =>
      have normal : ∀ g ∈ f :: fs, Normal g.skeleton := List.forall_mem_cons.mpr ⟨ihf, ihfs⟩
      rw [skeleton_connective]
      refine normal_join (fun empty => ?_) fun p hp => ?_
      · exact ihf.operands_ne_nil (List.flatMap_eq_nil_iff.mp empty f List.mem_cons_self)
      · obtain ⟨g, hg, hp⟩ := List.mem_flatMap.mp hp
        exact (normal g hg).of_mem_operands hp
  | modal i op a f ih => exact skeleton_modal i op a f ▸ ih.modal
  | fixed i op x f ih => exact skeleton_fixed i op x f ▸ ih.fixed
  | var i x => exact skeleton_var i x ▸ .var

/-- A connective gives its operands up to another one of its kind that it is an operand of. -/
theorem operands_connective (i : FormulaId) (op : Connective) (f : Formula) (fs : List Formula) :
    (connective i op f fs).operands op = (f :: fs).flatMap (operands op) := by
  rw [operands, skeleton_connective]
  refine operands_join fun p hp => ?_
  obtain ⟨g, -, hp⟩ := List.mem_flatMap.mp hp
  exact (g.normal_skeleton.of_mem_operands hp).2

example :
    (connective ⟨9⟩ .conjunction (connective ⟨8⟩ .disjunction (var ⟨1⟩ "X") [])
      [connective ⟨7⟩ .conjunction (var ⟨2⟩ "Y") [var ⟨3⟩ "Z"],
        connective ⟨6⟩ .disjunction (var ⟨4⟩ "Y") [var ⟨5⟩ "Z"]]).skeleton =
      .connective .conjunction
        [.var "X", .var "Y", .var "Z", .connective .disjunction [.var "Y", .var "Z"]] := rfl

theorem join_operands (op : Connective) (f : Formula) : join op (f.operands op) = f.skeleton :=
  f.normal_skeleton.join_operands op

end Formula

end ProcessLogic
