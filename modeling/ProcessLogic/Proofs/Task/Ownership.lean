import ProcessLogic.Proofs.Task.Accounting

/-!
# Who owns a task

A dispatch owns the task from its start until it settles the task or is given up.  This is said of
the log alone, where starts, settlings and dispatches given up all are to be found, and it is what
the field for the outstanding generation stands for: `Run.Owned` ties the two together.

A report is heard if its generation is the outstanding one.  Where no generation has been handed out
twice it is therefore the owner that is heard, and every settling in the log is one by the dispatch
that owned the task at that moment.
-/

namespace ProcessLogic

namespace Effect

/-- Whether the task changes hands. -/
def isTransfer : Effect → Bool
  | .start _ | .abort _ | .settle _ _ => true
  | .edit _ | .idle => false

/-- The dispatch owns the task: it has been started, and since then no other has been, and it has
neither been given up nor settled the task. -/
def Owner (log : List Effect) (d : Dispatch) : Prop :=
  ∃ before between, log = before ++ .start d :: between ∧ ∀ x ∈ between, x.isTransfer = false

variable {log before after : List Effect} {x y : Effect} {d : Dispatch}

/-- An effect after a log is where a split of the whole falls, or comes after it. -/
theorem append_singleton_eq_split :
    log ++ [x] = before ++ y :: after ↔
      (after = [] ∧ log = before ∧ x = y) ∨
        ∃ init, after = init ++ [x] ∧ log = before ++ y :: init := by
  constructor
  · intro h
    rcases List.eq_nil_or_concat' after with rfl | ⟨init, z, rfl⟩
    · obtain ⟨same, last⟩ := List.append_inj' h rfl
      exact .inl ⟨rfl, same, List.head_eq_of_cons_eq last⟩
    · rw [← List.cons_append, ← List.append_assoc] at h
      obtain ⟨same, last⟩ := List.append_inj' h rfl
      cases last
      exact .inr ⟨init, rfl, same⟩
  · rintro (⟨rfl, rfl, rfl⟩ | ⟨init, rfl, rfl⟩)
    · rfl
    · simp

theorem Owner.start_mem (h : Owner log d) : .start d ∈ log := by
  obtain ⟨before, between, rfl, -⟩ := h
  exact List.mem_append_right _ List.mem_cons_self

/-- A dispatch owns the task once it is started, and until the task changes hands. -/
theorem owner_append_singleton :
    Owner (log ++ [x]) d ↔ x = .start d ∨ (x.isTransfer = false ∧ Owner log d) := by
  constructor
  · rintro ⟨before, between, split, kept⟩
    rcases append_singleton_eq_split.mp split with ⟨-, -, last⟩ | ⟨init, rfl, rfl⟩
    · exact .inl last
    · obtain ⟨kept, last⟩ := List.forall_mem_append.mp kept
      exact .inr ⟨last x (List.mem_singleton_self x), before, init, rfl, kept⟩
  · rintro (rfl | ⟨last, before, between, rfl, kept⟩)
    · exact ⟨log, [], rfl, List.forall_mem_nil _⟩
    · refine ⟨before, between ++ [x], by simp, ?_⟩
      exact List.forall_mem_append.mpr ⟨kept, List.forall_mem_singleton.mpr last⟩

end Effect

namespace Run

variable {r : Run} {log : List Effect} {x : Effect}

/-- The outstanding generation is that of the owner. -/
def Owned (r : Run) (log : List Effect) : Prop :=
  ∀ generation, r.task.outstanding = some generation ↔
    ∃ d : Dispatch, d.generation = generation ∧ Effect.Owner log d

namespace Owned

theorem new (id : Nat) (question : Question) : Owned (.new id question) [] := by
  intro generation
  constructor
  · exact fun held ↦ by cases held
  · rintro ⟨d, -, owner⟩
    cases owner.start_mem

/-- An effect by which the task does not change hands leaves the owner and the outstanding
generation alone. -/
theorem append_of_kept {r' : Run} (h : Owned r log)
    (same : r'.task.outstanding = r.task.outstanding) (kept : x.isTransfer = false) :
    Owned r' (log ++ [x]) := by
  intro generation
  rw [same, h generation]
  refine exists_congr fun d ↦ and_congr_right fun _ ↦ ?_
  rw [Effect.owner_append_singleton]
  constructor
  · exact fun owner ↦ .inr ⟨kept, owner⟩
  · rintro (rfl | ⟨-, owner⟩)
    · cases kept
    · exact owner

/-- When the outstanding dispatch ends, nobody owns the task. -/
theorem append_of_ended {r' : Run} (free : r'.task.outstanding = none)
    (ended : x.isTransfer = true) (notStarted : ∀ d, x ≠ .start d) : Owned r' (log ++ [x]) := by
  intro generation
  rw [free]
  constructor
  · exact fun held ↦ by cases held
  · rintro ⟨d, -, owner⟩
    rcases Effect.owner_append_singleton.mp owner with started | ⟨kept, -⟩
    · exact absurd started (notStarted d)
    · rw [ended] at kept
      cases kept

theorem apply (enabled : r.Enabled x) (h : Owned r log) : Owned (r.apply x) (log ++ [x]) := by
  cases enabled with
  | start program free =>
      intro generation
      constructor
      · intro held
        cases held
        exact ⟨_, rfl, Effect.owner_append_singleton.mpr (.inl rfl)⟩
      · rintro ⟨d, rfl, owner⟩
        rcases Effect.owner_append_singleton.mp owner with started | ⟨kept, -⟩
        · cases started
          rfl
        · cases kept
  | abort held => exact append_of_ended rfl rfl fun _ ↦ Effect.noConfusion
  | settle verdict started held => exact append_of_ended rfl rfl fun _ ↦ Effect.noConfusion
  | edit question => exact h.append_of_kept rfl rfl
  | idle => exact h.append_of_kept rfl rfl

/-- A dispatch with the outstanding generation is the owner, as long as no generation has been
handed out twice. -/
theorem owner_of_outstanding (h : Owned r log) (accounted : Accounted r log)
    (few : r.started.length ≤ UInt64.size) {d : Dispatch} (started : d ∈ r.started)
    (held : r.task.outstanding = some d.generation) : Effect.Owner log d := by
  obtain ⟨d', same, owner⟩ := (h d.generation).mp held
  have started' : d' ∈ r.started := by
    rw [accounted.started]
    exact Effect.mem_started_iff.mpr owner.start_mem
  have own : d' = d :=
    List.inj_on_of_nodup_map (accounted.nodup_generations few) started' started same
  exact own ▸ owner

end Owned

/-- Only dispatches that owned the task have settled it. -/
def Rightful (log : List Effect) : Prop :=
  ∀ before d verdict after, log = before ++ .settle d verdict :: after → Effect.Owner before d

theorem Rightful.nil : Rightful [] := by
  intro before d verdict after split
  simp at split

theorem Rightful.append_singleton (h : Rightful log)
    (last : ∀ d verdict, x = .settle d verdict → Effect.Owner log d) : Rightful (log ++ [x]) := by
  intro before d verdict after split
  rcases Effect.append_singleton_eq_split.mp split with ⟨-, rfl, rfl⟩ | ⟨init, -, rfl⟩
  · exact last d verdict rfl
  · exact h before d verdict init rfl

/-- An effect that can come about is a settling by the owner, if it is a settling. -/
theorem Enabled.owner {d : Dispatch} {verdict : Verdict} (h : r.Enabled (.settle d verdict))
    (accounted : Accounted r log) (owned : Owned r log) (few : r.started.length ≤ UInt64.size) :
    Effect.Owner log d := by
  cases h with
  | settle _ started held => exact owned.owner_of_outstanding accounted few started held

end Run

end ProcessLogic
