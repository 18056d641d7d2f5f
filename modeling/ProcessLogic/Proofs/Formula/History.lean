import ProcessLogic.Proofs.Formula.Numbering
import Mathlib.Data.Finset.Card
import Mathlib.Data.List.Induction

/-!
# Definitions and their history

Definitions come about by calls that define names, one after the other.  All that can be asked of
them is settled by these calls: a name stands for what its last call says, and it keeps the place of
its first one.

A fixed point is built by the call that defines it.  Other nodes may be built between two calls, so
each call comes with the id that is next at its time.
-/

namespace ProcessLogic

/-- A call that defines a name, as a given formula or as a fixed point that is built for it. -/
inductive Defining where
  | define (name : String) (f : Formula)
  | fixed (op : FixedPoint) (name : String) (body : Formula) (next : UInt64)

namespace Defining

def name : Defining → String
  | .define name _ | .fixed _ name _ _ => name

/-- What the name is defined as. -/
def formula : Defining → Formula
  | .define _ f => f
  | .fixed op name body next => .fixed ⟨next⟩ op name body

/-- The last of some calls that defines a name. -/
def last? (name : String) (calls : List Defining) : Option Defining :=
  (calls.filter fun c => c.name = name).getLast?

/-- The place of the first call that defines a name. -/
def first (name : String) (calls : List Defining) : Nat := (calls.map Defining.name).idxOf name

variable {calls : List Defining} {c : Defining} {name : String}

theorem last?_append_singleton :
    last? name (calls ++ [c]) = if c.name = name then some c else last? name calls := by
  by_cases h : c.name = name <;> simp [last?, h]

theorem first_append_of_mem {later : List Defining} (h : ∃ c ∈ calls, c.name = name) :
    first name (calls ++ later) = first name calls := by
  rw [first, List.map_append]
  exact List.idxOf_append_of_mem (List.mem_map.mpr h)

theorem first_lt_of_mem (h : ∃ c ∈ calls, c.name = name) : first name calls < calls.length := by
  have place := List.idxOf_lt_length_of_mem (List.mem_map.mpr h)
  rwa [List.length_map] at place

/-- A name that is new comes behind all calls so far. -/
theorem first_append_singleton_self (new : ∀ c' ∈ calls, c'.name ≠ c.name) :
    first c.name (calls ++ [c]) = calls.length := by
  have notMem : c.name ∉ calls.map Defining.name := by
    intro h
    obtain ⟨c', hc', same⟩ := List.mem_map.mp h
    exact new c' hc' same
  rw [first, List.map_append, List.idxOf_append_of_notMem notMem, List.length_map]
  simp

end Defining

/-- The next id is not the id of a node, as long as the ids have not gone round. -/
theorem Workshop.Reachable.id_ne_next {w : Workshop} {g : Formula} (h : w.Reachable)
    (few : w.nodes.length < UInt64.size) (hg : g ∈ w.nodes) : g.id ≠ ⟨w.next⟩ := by
  intro same
  obtain ⟨n, hn⟩ := List.mem_iff_getElem?.mp hg
  obtain ⟨small, -⟩ := List.getElem?_eq_some_iff.mp hn
  have place := h.toNat_id (Nat.le_of_lt few) hn
  rw [same, h.numbered.next, UInt64.toNat_ofNat_of_lt' few] at place
  exact small.ne place.symm

namespace Definitions

open Defining

/-- The definitions after one more call. -/
def call (defs : Definitions) : Defining → Definitions
  | .define name f => (defs.define name f).2
  | .fixed op name body next => ((defs.defineFixed op name body).run next).1.2

/-- The definitions after some more calls. -/
def after (defs : Definitions) (calls : List Defining) : Definitions := calls.foldl call defs

variable {defs : Definitions} {calls : List Defining} {name : String}

/-- The three kinds of call differ in where the formula comes from only. -/
theorem call_eq_define (defs : Definitions) (c : Defining) :
    defs.call c = (defs.define c.name c.formula).2 := by
  cases c <;> rfl

theorem after_append_singleton (defs : Definitions) (calls : List Defining) (c : Defining) :
    defs.after (calls ++ [c]) = (defs.after calls).call c := by
  rw [after, List.foldl_append]
  rfl

theorem find?_call (defs : Definitions) (c : Defining) (name : String) :
    (defs.call c).find? name = if c.name = name then some c.formula else defs.find? name := by
  rw [call_eq_define, find?_define]
  simp only [eq_comm]

/-! ### Names -/

theorem map_fst_put (name : String) (f : Formula) (entries : List (String × Formula)) :
    (put name f entries).map Prod.fst =
      if name ∈ entries.map Prod.fst then entries.map Prod.fst
      else entries.map Prod.fst ++ [name] := by
  induction entries with
  | nil => rfl
  | cons entry entries ih =>
      by_cases here : entry.1 = name
      · simp [put, here]
      · rw [put, if_neg here, List.map_cons, ih]
        by_cases later : name ∈ entries.map Prod.fst <;> simp [later, Ne.symm here]

/-- A name that is defined again keeps its place, and a new one comes last. -/
theorem names_call (defs : Definitions) (c : Defining) :
    (defs.call c).names = if c.name ∈ defs.names then defs.names else defs.names ++ [c.name] := by
  rw [call_eq_define]
  exact map_fst_put c.name c.formula defs.entries

theorem mem_names_call_iff (c : Defining) :
    name ∈ (defs.call c).names ↔ name ∈ defs.names ∨ c.name = name := by
  rw [names_call]
  split
  · rename_i old
    constructor
    · exact .inl
    · rintro (h | rfl)
      · exact h
      · exact old
  · rw [List.mem_append, List.mem_singleton, eq_comm (a := name)]

/-- Names stay where they are. -/
theorem names_prefix_after (defs : Definitions) (calls : List Defining) :
    defs.names <+: (defs.after calls).names := by
  induction calls generalizing defs with
  | nil => exact List.prefix_rfl
  | cons c calls ih =>
      refine List.IsPrefix.trans ?_ (ih (defs.call c))
      rw [names_call]
      split
      · exact List.prefix_rfl
      · exact List.prefix_append _ _

/-! ### From nothing on -/

/-- The definitions that calls lead to. -/
def ofCalls (calls : List Defining) : Definitions := empty.after calls

theorem ofCalls_append_singleton (calls : List Defining) (c : Defining) :
    ofCalls (calls ++ [c]) = (ofCalls calls).call c := after_append_singleton _ _ _

theorem find?_ofCalls (calls : List Defining) (name : String) :
    (ofCalls calls).find? name = (last? name calls).map Defining.formula := by
  induction calls using List.reverseRecOn with
  | nil => rfl
  | append_singleton calls c ih =>
      rw [ofCalls_append_singleton, find?_call, ih, last?_append_singleton]
      split <;> rfl

theorem mem_names_ofCalls_iff :
    name ∈ (ofCalls calls).names ↔ ∃ c ∈ calls, c.name = name := by
  induction calls using List.reverseRecOn with
  | nil => simp [ofCalls, after, names, empty]
  | append_singleton calls c ih =>
      rw [ofCalls_append_singleton, mem_names_call_iff, ih]
      simp [or_and_right, exists_or]

/-- Names are in the order of their first calls. -/
theorem pairwise_names_ofCalls (calls : List Defining) :
    (ofCalls calls).names.Pairwise fun x y => first x calls < first y calls := by
  induction calls using List.reverseRecOn with
  | nil => exact .nil
  | append_singleton calls c ih =>
      have old : (ofCalls calls).names.Pairwise fun x y =>
          first x (calls ++ [c]) < first y (calls ++ [c]) := by
        refine ih.imp_of_mem fun hx hy lt => ?_
        rwa [first_append_of_mem (mem_names_ofCalls_iff.mp hx),
          first_append_of_mem (mem_names_ofCalls_iff.mp hy)]
      rw [ofCalls_append_singleton, names_call]
      split
      · exact old
      · rename_i unnamed
        have new : ∀ c' ∈ calls, c'.name ≠ c.name := fun c' hc' same =>
          unnamed (mem_names_ofCalls_iff.mpr ⟨c', hc', same⟩)
        refine List.pairwise_append.mpr ⟨old, List.pairwise_singleton _ _, fun x hx y hy => ?_⟩
        have hx := mem_names_ofCalls_iff.mp hx
        rw [List.mem_singleton.mp hy, first_append_of_mem hx, first_append_singleton_self new]
        exact first_lt_of_mem hx

theorem nodup_names_ofCalls (calls : List Defining) : (ofCalls calls).names.Nodup :=
  (pairwise_names_ofCalls calls).imp fun lt => by
    rintro rfl
    exact lt.false

theorem get_of_mem {entries : List (String × Formula)} {entry : String × Formula}
    (distinct : (entries.map Prod.fst).Nodup) (h : entry ∈ entries) :
    get entry.1 entries = some entry.2 := by
  induction entries with
  | nil => cases h
  | cons first entries ih =>
      obtain ⟨new, distinct⟩ := List.nodup_cons.mp distinct
      rcases List.mem_cons.mp h with rfl | h
      · rw [get, if_pos rfl]
      · have apart : first.1 ≠ entry.1 := fun same => new (same ▸ List.mem_map_of_mem h)
        rw [get, if_neg apart, ih distinct h]

/-- Each name is listed with what it stands for. -/
theorem find?_of_mem_entries {entry : String × Formula} (h : entry ∈ (ofCalls calls).entries) :
    (ofCalls calls).find? entry.1 = some entry.2 :=
  get_of_mem (nodup_names_ofCalls calls) h

theorem size_ofCalls (calls : List Defining) :
    (ofCalls calls).size = (calls.map Defining.name).toFinset.card := by
  have same : (ofCalls calls).names.toFinset = (calls.map Defining.name).toFinset := by
    ext name
    rw [List.mem_toFinset, List.mem_toFinset, mem_names_ofCalls_iff, List.mem_map]
  rw [← same, List.toFinset_card_of_nodup (nodup_names_ofCalls calls), names, List.length_map, size]

/-- **Definitions are an ordered map.**  A name stands for what its last call says, and for nothing
if no call defines exactly this name.  The names are listed once each, in the order of their first
calls, with what they stand for; further calls add names behind them and move none.  There are as
many entries as there are names.

A call that defines a name as a given formula returns what the name stood for.  One that defines it
as a fixed point builds this fixed point of the given body, stores the very node that it returns,
and takes an id that no node built so far has. -/
theorem ofCalls_ordered (calls : List Defining) :
    let defs := ofCalls calls
    (∀ name, defs.find? name = (last? name calls).map Defining.formula ∧
      defs.resolve name =
        (last? name calls).elim (.error (.undefinedVariable name)) fun c => .ok c.formula) ∧
    (∀ name, name ∈ defs.names ↔ ∃ c ∈ calls, c.name = name) ∧
    (defs.names.Pairwise fun x y => first x calls < first y calls) ∧
    (∀ entry ∈ defs.entries, (last? entry.1 calls).map Defining.formula = some entry.2) ∧
    (∀ later, defs.names <+: (ofCalls (calls ++ later)).names) ∧
    defs.size = (calls.map Defining.name).toFinset.card ∧
    (defs.isEmpty = true ↔ defs.size = 0) ∧
    (∀ name f, defs.define name f =
      ((last? name calls).map Defining.formula, ofCalls (calls ++ [.define name f]))) ∧
    ∀ op name body next,
      let f := Formula.fixed ⟨next⟩ op name body
      let later := ofCalls (calls ++ [.fixed op name body next])
      (defs.defineFixed op name body).run next = ((f, later), next + 1) ∧
        later.find? name = some f ∧
        ∀ w : Workshop, w.Reachable → w.nodes.length < UInt64.size → w.next = next →
          ∀ g ∈ w.nodes, g.id ≠ f.id := by
  intro defs
  refine ⟨fun name => ⟨find?_ofCalls calls name, ?resolve⟩, fun name => mem_names_ofCalls_iff,
    pairwise_names_ofCalls calls, fun entry h => ?listed, fun later => ?later, size_ofCalls calls,
    ?empty, fun name f => ?define, fun op name body next => ?fixed⟩
  case resolve =>
    rw [resolve, find?_ofCalls]
    cases last? name calls <;> rfl
  case listed => rw [← find?_ofCalls, find?_of_mem_entries h]
  case later =>
    have more : ofCalls (calls ++ later) = defs.after later := List.foldl_append
    rw [more]
    exact defs.names_prefix_after later
  case empty => rw [isEmpty, size, List.isEmpty_iff_length_eq_zero]
  case define =>
    rw [ofCalls_append_singleton, ← find?_ofCalls]
    rfl
  case fixed =>
    intro f later
    have stored : later = defs.call (.fixed op name body next) := ofCalls_append_singleton _ _
    refine ⟨?_, ?_, ?_⟩
    · rw [stored]
      rfl
    · rw [stored, find?_call]
      exact if_pos rfl
    · rintro w h few rfl g hg
      exact h.id_ne_next few hg

/-- A name is defined three times, with another one in between; names that differ in case or in a
blank are others. -/
theorem ofCalls_ordered_redefined :
    let t := Formula.truth ⟨0⟩ true
    let f := Formula.truth ⟨1⟩ false
    let x := Formula.var ⟨3⟩ "X"
    let calls : List Defining :=
      [.fixed .least "X" t 2, .define "Y" f, .define "X" f, .fixed .greatest "X" x 4]
    let fixed := Formula.fixed ⟨4⟩ .greatest "X" x
    (ofCalls calls).find? "X" = some fixed ∧
      (ofCalls calls).resolve "x" = .error (.undefinedVariable "x") ∧
      (ofCalls calls).find? "X " = none ∧ (ofCalls calls).size = 2 ∧
      (ofCalls calls).entries = [("X", fixed), ("Y", f)] ∧
      (last? "X" calls).map Defining.formula = some fixed ∧
      ((ofCalls calls).define "X" t).1 = some fixed ∧
      ∀ g ∈ [t, f], g.id ≠ ⟨2⟩ := by
  intro t f x calls fixed
  have first : Workshop.Reachable ⟨1, [t]⟩ :=
    Workshop.Reachable.empty.construct (.truth true) (by simp [Construction.operands])
  have second : Workshop.Reachable ⟨2, [t, f]⟩ :=
    first.construct (.truth false) (by simp [Construction.operands])
  have entries : (ofCalls calls).entries = [("X", fixed), ("Y", f)] := rfl
  obtain ⟨found, -, -, listed, -, size, -, define, -⟩ := ofCalls_ordered calls
  obtain ⟨-, -, -, -, -, -, -, -, built⟩ := ofCalls_ordered []
  refine ⟨(found "X").1, (found "x").2, (found "X ").1, ?_, entries,
    listed ("X", fixed) (by rw [entries]; exact List.mem_cons_self), ?_, ?_⟩
  · rw [size]
    decide
  · rw [define]
    rfl
  · exact (built .least "X" t 2).2.2 _ second (by decide) rfl

end Definitions

end ProcessLogic
