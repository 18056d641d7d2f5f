import ProcessLogic.Json.Record
import ProcessLogic.Proofs.Json.Layout
import ProcessLogic.Proofs.Json.Meaning
import Mathlib.Data.List.Forall2
import Mathlib.Data.List.Perm.Basic

/-!
# Members of objects

An object that is read as a record is looked at key by key, and what counts is the only value of a
key.  So it makes no difference in which order the members come, how their keys are spelled, and
what other members there are; and a key that is repeated or missing has no such value.

`Tree.Repeats` and `Tree.Lacks` say of the members in a text that a key is repeated or missing,
however it is spelled.
-/

namespace ProcessLogic

/-! ### Keys in a text -/

theorem Tree.mem_tokens_of_mem {members : List (Quoted × Tree)} {m : Quoted × Tree}
    (h : m ∈ members) : Token.string m.1 ∈ Tree.tokens (.object members) := by
  rw [tokens, tokensOfMembers_eq_map]
  refine List.mem_cons_of_mem _ (List.mem_append_left _ ?_)
  cases members with
  | nil => cases h
  | cons first rest =>
      rw [List.map_cons, intercalate_cons, List.mem_append, List.mem_flatMap]
      rcases List.mem_cons.mp h with rfl | h
      · exact .inl List.mem_cons_self
      · exact .inr ⟨m, h, List.mem_cons_of_mem _ List.mem_cons_self⟩

/-- The keys in a text of an object are grammatical. -/
theorem Layout.grammatical_key {members : List (Quoted × Tree)} {text : List Char}
    (l : Layout (Tree.tokens (.object members)) text) {m : Quoted × Tree} (h : m ∈ members) :
    m.1.Grammatical := l.grammatical _ (Tree.mem_tokens_of_mem h)

/-! ### Decoding members -/

namespace Json

variable {N S N' S' : Type} {number : N → Option N'} {string : S → Option S'}

theorem decodeMembers_eq_some_iff {members : List (S × Json N S)}
    {entries : List (S' × Json N' S')} :
    decodeMembers number string members = some entries ↔
      List.Forall₂ (fun m e => string m.1 = some e.1 ∧ m.2.decode number string = some e.2)
        members entries := by
  induction members generalizing entries with
  | nil =>
      rw [decodeMembers, List.forall₂_nil_left_iff, Option.some.injEq]
      exact eq_comm
  | cons m members ih =>
      obtain ⟨key, value⟩ := m
      rw [decodeMembers, List.forall₂_cons_left_iff]
      constructor
      · intro h
        obtain ⟨k, hk, h⟩ := Option.bind_eq_some_iff.mp h
        obtain ⟨v, hv, h⟩ := Option.bind_eq_some_iff.mp h
        obtain ⟨rest, hrest, h⟩ := Option.bind_eq_some_iff.mp h
        obtain rfl := Option.some.inj h
        exact ⟨(k, v), rest, ⟨hk, hv⟩, ih.mp hrest, rfl⟩
      · rintro ⟨⟨k, v⟩, rest, ⟨hk, hv⟩, hrest, rfl⟩
        dsimp only at hk hv
        rw [hk, hv, ih.mpr hrest]
        rfl

theorem everyMember_iff {p : N → Prop} {q : S → Prop} {members : List (S × Json N S)} :
    EveryMember p q members ↔ ∀ m ∈ members, q m.1 ∧ m.2.Every p q := by
  induction members with
  | nil => simp [EveryMember]
  | cons first rest ih => rw [EveryMember, ih, List.forall_mem_cons, and_assoc]

/-- The members of an object are no deeper than the deepest of them. -/
theorem membersDepth_le_iff {members : List (S × Json N S)} {limit : Nat} :
    membersDepth members ≤ limit ↔ ∀ m ∈ members, m.2.depth ≤ limit := by
  induction members with
  | nil => simp [membersDepth]
  | cons m members ih => rw [membersDepth, Nat.max_le, ih, List.forall_mem_cons]

end Json

namespace Tree

/-- A member of an object is read as a key and a value. -/
def ReadAs (m : Quoted × Tree) (e : String × Value) : Prop :=
  m.1.string? = some e.1 ∧ m.2.decode Numeral.number? Quoted.string? = some e.2

theorem exists_readAs_of_mem {members : List (Quoted × Tree)} {entries : List (String × Value)}
    (h : List.Forall₂ ReadAs members entries) {m : Quoted × Tree} (hm : m ∈ members) :
    ∃ e ∈ entries, ReadAs m e := by
  induction h with
  | nil => cases hm
  | @cons _ e _ _ first _ ih =>
      rcases List.mem_cons.mp hm with rfl | hm
      · exact ⟨e, List.mem_cons_self, first⟩
      · obtain ⟨e', he', read⟩ := ih hm
        exact ⟨e', List.mem_cons_of_mem _ he', read⟩

/-- A member is read as one thing only. -/
theorem ReadAs.unique {m : Quoted × Tree} {e e' : String × Value} (h : ReadAs m e)
    (h' : ReadAs m e') : e = e' :=
  Prod.ext (Option.some.inj (h.1.symm.trans h'.1)) (Option.some.inj (h.2.symm.trans h'.2))

/-- At least two members have a key. -/
def Repeats (key : String) (members : List (Quoted × Tree)) : Prop :=
  ∃ first second, [first, second].Sublist members ∧
    first.1.Spells key.toList ∧ second.1.Spells key.toList

/-- No member has a key. -/
def Lacks (key : String) (members : List (Quoted × Tree)) : Prop :=
  ∀ m ∈ members, ¬m.1.Spells key.toList

end Tree

namespace Value

open ProcessLogic.Tree

variable {members : List (Quoted × Tree)} {entries record others : List (String × Value)}
  {key : String} {text : List Char}

/-- What is read from the text of a document is what the document stands for. -/
theorem read?_of_layout {t : Tree} (l : Layout t.tokens text) :
    read? (.ofList text) = t.value? nestingLimit := by
  have tree : Tree.read? (.ofList text) = some t := by
    rw [Tree.read?, String.toList_ofList]
    exact Tree.lex_bind_eq_some_iff.mpr l
  rw [read?, tree, Option.bind_eq_bind, Option.bind_some]

/-- An object is read with its members in order, if none of them is nested too deeply. -/
theorem read?_object (l : Layout (Tree.tokens (.object members)) text)
    (shallow : ∀ m ∈ members, m.2.depth ≤ nestingLimit - 1)
    (h : List.Forall₂ ReadAs members entries) : read? (.ofList text) = some (.object entries) := by
  have depth : Json.depth (.object members) ≤ nestingLimit := by
    rw [Json.depth_object]
    exact Nat.succ_le_succ (Json.membersDepth_le_iff.mpr shallow)
  rw [read?_of_layout l, Tree.value?, if_pos depth, Json.decode,
    Json.decodeMembers_eq_some_iff.mpr h, Option.map_some]

/-- Whatever is read from the text of an object is an object of its members. -/
theorem exists_entries_of_read? {v : Value} (l : Layout (Tree.tokens (.object members)) text)
    (h : read? (.ofList text) = some v) :
    ∃ entries, v = .object entries ∧ List.Forall₂ ReadAs members entries := by
  rw [read?_of_layout l, Tree.value?, Option.ite_none_right_eq_some, Json.decode,
    Option.map_eq_some_iff] at h
  obtain ⟨-, entries, decoded, rfl⟩ := h
  exact ⟨entries, rfl, Json.decodeMembers_eq_some_iff.mp decoded⟩

/-! ### The values of a key -/

theorem members_append (key : String) (front back : List (String × Value)) :
    Value.members key (front ++ back) = Value.members key front ++ Value.members key back := by
  rw [Value.members, List.filter_append, List.map_append]
  rfl

theorem members_eq_nil (h : ∀ e ∈ entries, e.1 ≠ key) : Value.members key entries = [] := by
  rw [Value.members, List.map_eq_nil_iff, List.filter_eq_nil_iff]
  intro e he same
  exact h e he (of_decide_eq_true same)

theorem mem_members {e : String × Value} (h : e ∈ entries) : e.2 ∈ Value.members e.1 entries :=
  List.mem_map_of_mem (List.mem_filter.mpr ⟨h, decide_eq_true rfl⟩)

/-- In a record a key has at most one value. -/
theorem length_members_le_one (h : (record.map Prod.fst).Nodup) :
    (Value.members key record).length ≤ 1 := by
  have once := List.nodup_iff_count.mp h key
  rwa [List.count, List.countP_map, List.countP_eq_length_filter,
    ← List.length_map Prod.snd] at once

/-- In whatever order the members of a record come, and whatever members with other keys come
between them, a key has the same value; or it has none. -/
theorem members_eq_of_perm (h : entries.Perm (record ++ others))
    (distinct : (record.map Prod.fst).Nodup) (other : ∀ e ∈ others, e.1 ≠ key) :
    Value.members key entries = Value.members key record := by
  have perm : (Value.members key entries).Perm (Value.members key record) := by
    rw [← List.append_nil (Value.members key record), ← members_eq_nil other, ← members_append]
    exact (h.filter _).map _
  -- A single value has no other order.
  have short : (Value.members key record).length ≤ 1 := length_members_le_one distinct
  generalize Value.members key record = values at perm short
  match values, short with
  | [], _ => exact perm.eq_nil
  | [value], _ => exact List.perm_singleton.mp perm

/-- There are as many values of a key as there are members that are read with that key. -/
theorem length_members (h : List.Forall₂ ReadAs members entries) :
    (Value.members key entries).length = members.countP fun m => m.1.string? = some key := by
  induction h with
  | nil => rfl
  | @cons m e _ _ first _ ih =>
      rw [Value.members, List.length_map] at ih ⊢
      rw [List.filter_cons, List.countP_cons, first.1, ← ih]
      split
      · rename_i same
        rw [if_pos (decide_eq_true (congrArg some (of_decide_eq_true same))), List.length_cons]
      · rename_i other
        rw [if_neg fun same => other (decide_eq_true (Option.some.inj (of_decide_eq_true same))),
          Nat.add_zero]

/-- A repeated key has at least two values. -/
theorem two_le_length_members (h : List.Forall₂ ReadAs members entries)
    (repeats : Repeats key members) : 2 ≤ (Value.members key entries).length := by
  obtain ⟨first, second, sub, hfirst, hsecond⟩ := repeats
  rw [length_members h]
  refine le_trans ?_ sub.countP_le
  simp [Quoted.string?_eq_of_spells hfirst, Quoted.string?_eq_of_spells hsecond]

/-- A missing key has no value. -/
theorem members_eq_nil_of_lacks (grammatical : ∀ m ∈ members, m.1.Grammatical)
    (h : List.Forall₂ ReadAs members entries) (lacks : Lacks key members) :
    Value.members key entries = [] := by
  refine List.eq_nil_of_length_eq_zero ?_
  rw [length_members h, List.countP_eq_zero]
  intro m hm named
  exact lacks m hm ((Quoted.string?_eq_some_iff (grammatical m hm)).mp (of_decide_eq_true named))

end Value

end ProcessLogic
