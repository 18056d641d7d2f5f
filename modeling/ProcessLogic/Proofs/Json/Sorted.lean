import ProcessLogic.Proofs.Json.Object

/-!
# Sorting the members of objects

Where objects are kept as maps their members are written in the order of the keys, whatever order
they had.  If no key is repeated then no member is lost: the members are the same up to their order,
and every key keeps its value.  Sorting makes a value no deeper and puts no number into it.
-/

namespace ProcessLogic.Value

variable {key : String} {value : Value} {members sorted : List (String × Value)}
  {e : String × Value}

/-! ### One object -/

theorem mem_of_mem_insertMember (h : e ∈ insertMember key value sorted) :
    e = (key, value) ∨ e ∈ sorted := by
  induction sorted with
  | nil => exact .inl (List.mem_singleton.mp h)
  | cons first rest ih =>
      rw [insertMember] at h
      split at h
      · exact List.mem_cons.mp h
      · split at h
        · exact (List.mem_cons.mp h).imp_right (List.mem_cons_of_mem _)
        · rcases List.mem_cons.mp h with rfl | h
          · exact .inr List.mem_cons_self
          · exact (ih h).imp_right (List.mem_cons_of_mem _)

/-- A new key is put in among the others. -/
theorem insertMember_perm (fresh : key ∉ sorted.map Prod.fst) :
    (insertMember key value sorted).Perm ((key, value) :: sorted) := by
  induction sorted with
  | nil => exact .refl _
  | cons first rest ih =>
      obtain ⟨other, fresh⟩ := List.ne_and_not_mem_of_not_mem_cons fresh
      rw [insertMember, if_neg other]
      split
      · exact .refl _
      · exact ((ih fresh).cons first).trans (.swap _ _ _)

/-- The keys stay in ascending order. -/
theorem pairwise_insertMember (h : (sorted.map Prod.fst).Pairwise (· < ·)) :
    ((insertMember key value sorted).map Prod.fst).Pairwise (· < ·) := by
  induction sorted with
  | nil => exact List.pairwise_singleton _ _
  | cons first rest ih =>
      obtain ⟨least, others⟩ := List.pairwise_cons.mp h
      rw [insertMember]
      split
      · rename_i less
        refine List.pairwise_cons.mpr ⟨List.forall_mem_cons.mpr ⟨less, ?_⟩, h⟩
        intro k hk
        exact String.lt_trans less (least k hk)
      · split
        · rename_i same
          rw [same]
          exact h
        · rename_i notLess other
          have greater : first.1 < key :=
            Std.lt_of_le_of_ne (String.not_lt.mp notLess) (Ne.symm other)
          refine List.pairwise_cons.mpr ⟨?_, ih others⟩
          intro k hk
          obtain ⟨e, he, rfl⟩ := List.mem_map.mp hk
          rcases mem_of_mem_insertMember he with rfl | he
          · exact greater
          · exact least e.1 (List.mem_map_of_mem he)

theorem sortMembers_append_singleton (members : List (String × Value)) (last : String × Value) :
    sortMembers (members ++ [last]) = insertMember last.1 last.2 (sortMembers members) := by
  rw [sortMembers, List.foldl_append]
  rfl

theorem pairwise_sortMembers (members : List (String × Value)) :
    ((sortMembers members).map Prod.fst).Pairwise (· < ·) := by
  induction members using List.reverseRecOn with
  | nil => exact .nil
  | append_singleton members last ih =>
      rw [sortMembers_append_singleton]
      exact pairwise_insertMember ih

theorem mem_of_mem_sortMembers (h : e ∈ sortMembers members) : e ∈ members := by
  induction members using List.reverseRecOn with
  | nil => cases h
  | append_singleton members last ih =>
      rw [sortMembers_append_singleton] at h
      rcases mem_of_mem_insertMember h with rfl | h
      · exact List.mem_append_right _ (List.mem_singleton_self _)
      · exact List.mem_append_left _ (ih h)

/-- Members without a repeated key are put into another order. -/
theorem sortMembers_perm (distinct : (members.map Prod.fst).Nodup) :
    (sortMembers members).Perm members := by
  induction members using List.reverseRecOn with
  | nil => exact .refl _
  | append_singleton members last ih =>
      have unordered := List.perm_append_singleton last members
      obtain ⟨fresh, others⟩ := List.nodup_cons.mp ((unordered.map Prod.fst).nodup_iff.mp distinct)
      have perm := ih others
      rw [sortMembers_append_singleton]
      calc
        (insertMember last.1 last.2 (sortMembers members)).Perm (last :: sortMembers members) :=
          insertMember_perm fun known => fresh ((perm.map Prod.fst).mem_iff.mp known)
        List.Perm _ (last :: members) := perm.cons last
        List.Perm _ (members ++ [last]) := unordered.symm

/-- The keys come in their one ascending order. -/
theorem map_fst_sortMembers {keys : List String} (ascending : keys.Pairwise (· < ·))
    (perm : (members.map Prod.fst).Perm keys) : (sortMembers members).map Prod.fst = keys := by
  have distinct : keys.Nodup := by
    apply ascending.imp
    rintro a b less rfl
    exact String.lt_irrefl a less
  have same := ((sortMembers_perm (perm.nodup_iff.mpr distinct)).map Prod.fst).trans perm
  refine same.eq_of_pairwise ?_ (pairwise_sortMembers members) ascending
  intro a b _ _ less greater
  exact absurd greater (String.lt_asymm less)

/-- Every key keeps its value. -/
theorem members_sortMembers (distinct : (members.map Prod.fst).Nodup) (key : String) :
    Value.members key (sortMembers members) = Value.members key members := by
  have perm : (sortMembers members).Perm (members ++ []) := by
    rw [List.append_nil]
    exact sortMembers_perm distinct
  exact members_eq_of_perm perm distinct (List.forall_mem_nil _)

theorem sole?_sortMembers (distinct : (members.map Prod.fst).Nodup) (key : String) :
    sole? key (sortMembers members) = sole? key members := by
  rw [sole?, sole?, members_sortMembers distinct]

/-! ### All objects of a value -/

section Every

variable {p : Number → Prop} {q : String → Prop}

mutual

/-- Sorting changes neither numbers nor strings. -/
theorem every_sortKeys : (v : Value) → v.Every p q → v.sortKeys.Every p q
  | .null, h | .bool _, h | .number _, h | .string _, h => by rwa [sortKeys]
  | .array items, h => by
      rw [Json.Every] at h
      rw [sortKeys, Json.Every]
      exact every_sortKeysItems items h
  | .object members, h => by
      rw [Json.Every] at h
      rw [sortKeys, Json.Every, Json.everyMember_iff]
      intro e he
      exact Json.everyMember_iff.mp (every_sortKeysMembers members h) e (mem_of_mem_sortMembers he)

theorem every_sortKeysItems : (items : List Value) → Json.EveryItem p q items →
    Json.EveryItem p q (sortKeysItems items)
  | [], _ => by rw [sortKeysItems, Json.EveryItem]; trivial
  | item :: rest, h => by
      rw [Json.EveryItem] at h
      rw [sortKeysItems, Json.EveryItem]
      exact ⟨every_sortKeys item h.1, every_sortKeysItems rest h.2⟩

theorem every_sortKeysMembers : (members : List (String × Value)) →
    Json.EveryMember p q members → Json.EveryMember p q (sortKeysMembers members)
  | [], _ => by rw [sortKeysMembers, Json.EveryMember]; trivial
  | (key, value) :: rest, h => by
      rw [Json.EveryMember] at h
      rw [sortKeysMembers, Json.EveryMember]
      exact ⟨h.1, every_sortKeys value h.2.1, every_sortKeysMembers rest h.2.2⟩

end

end Every

mutual

/-- Sorting makes nothing deeper. -/
theorem depth_sortKeys_le : (v : Value) → v.sortKeys.depth ≤ v.depth
  | .null | .bool _ | .number _ | .string _ => by rw [sortKeys]
  | .array items => by
      rw [sortKeys, Json.depth_array, Json.depth_array]
      exact Nat.succ_le_succ (itemsDepth_sortKeysItems_le items)
  | .object members => by
      rw [sortKeys, Json.depth_object, Json.depth_object]
      refine Nat.succ_le_succ (Json.membersDepth_le_iff.mpr fun e he => ?_)
      exact Json.membersDepth_le_iff.mp (membersDepth_sortKeysMembers_le members) e
        (mem_of_mem_sortMembers he)

theorem itemsDepth_sortKeysItems_le : (items : List Value) →
    Json.itemsDepth (sortKeysItems items) ≤ Json.itemsDepth items
  | [] => by rw [sortKeysItems]
  | item :: rest => by
      rw [sortKeysItems, Json.itemsDepth, Json.itemsDepth]
      have first := depth_sortKeys_le item
      have others := itemsDepth_sortKeysItems_le rest
      omega

theorem membersDepth_sortKeysMembers_le : (members : List (String × Value)) →
    Json.membersDepth (sortKeysMembers members) ≤ Json.membersDepth members
  | [] => by rw [sortKeysMembers]
  | (_, value) :: rest => by
      rw [sortKeysMembers, Json.membersDepth, Json.membersDepth]
      have first := depth_sortKeys_le value
      have others := membersDepth_sortKeysMembers_le rest
      omega

end

end ProcessLogic.Value
