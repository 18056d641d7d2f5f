import ProcessLogic.Proofs.Task.Ownership

/-!
# No stale answer

A task must not keep an answer to a question that is no longer asked.  The two counters see to
this, and the invariants behind them are about the past.  Who settles the task owned it, and a
dispatch was started as many edits ago as there have been revisions since; if there have been none,
the question is still the one it took with it.  So the two comparisons made when a dispatch reports,
of generations and of revisions, decide whether anything at all has happened to the task since the
dispatch was started.

Revisions are words too, so the second comparison means this for fewer than `2 ^ 64` edits.
-/

namespace ProcessLogic

namespace Effect

/-- Nothing has happened to the task since the dispatch was started. -/
def Untouched (log : List Effect) (d : Dispatch) : Prop :=
  ∃ before between, log = before ++ .start d :: between ∧ ∀ x ∈ between, x = .idle

/-- The verdict of a dispatch is the last word: nothing happened between its start and its settling
the task, and since then there has been no edit and none has settled the task. -/
def LastWord (log : List Effect) (d : Dispatch) (verdict : Verdict) : Prop :=
  ∃ before between after,
    log = before ++ .start d :: between ++ .settle d verdict :: after ∧
      (∀ x ∈ between, x = .idle) ∧ ∀ x ∈ after, x.isEdit = false ∧ x.isSettle = false

variable {log : List Effect} {x : Effect} {d : Dispatch} {verdict : Verdict}

theorem eq_idle_of_kept (transfer : x.isTransfer = false) (edit : x.isEdit = false) :
    x = .idle := by
  cases x with
  | idle => rfl
  | edit question => cases edit
  | _ => cases transfer

theorem countP_isEdit_of_idle {between : List Effect} (idle : ∀ x ∈ between, x = .idle) :
    between.countP isEdit = 0 := by
  refine List.countP_eq_zero.mpr fun x hx ↦ ?_
  rw [idle x hx]
  exact Bool.false_ne_true

/-- A verdict becomes the last word when its dispatch settles the task in time, and stays it until
the next edit or the next settling. -/
theorem lastWord_append_singleton :
    LastWord (log ++ [x]) d verdict ↔
      (x = .settle d verdict ∧ Untouched log d) ∨
        (x.isEdit = false ∧ x.isSettle = false ∧ LastWord log d verdict) := by
  constructor
  · rintro ⟨before, between, after, split, idle, quiet⟩
    rcases append_singleton_eq_split.mp split with ⟨rfl, rfl, rfl⟩ | ⟨init, rfl, rfl⟩
    · exact .inl ⟨rfl, before, between, rfl, idle⟩
    · obtain ⟨quiet, last⟩ := List.forall_mem_append.mp quiet
      obtain ⟨edit, settle⟩ := last x (List.mem_singleton_self x)
      exact .inr ⟨edit, settle, before, between, init, rfl, idle, quiet⟩
  · rintro (⟨rfl, before, between, rfl, idle⟩ | ⟨edit, settle, word⟩)
    · exact ⟨before, between, [], rfl, idle, List.forall_mem_nil _⟩
    · obtain ⟨before, between, after, rfl, idle, quiet⟩ := word
      refine ⟨before, between, after ++ [x], by simp, idle, ?_⟩
      exact List.forall_mem_append.mpr ⟨quiet, List.forall_mem_singleton.mpr ⟨edit, settle⟩⟩

/-- There has been no edit since the dispatch with the last word was started. -/
theorem LastWord.exists_start (h : LastWord log d verdict) :
    ∃ before between, log = before ++ .start d :: between ∧
      between.countP Effect.isEdit = 0 := by
  obtain ⟨before, between, after, rfl, idle, quiet⟩ := h
  refine ⟨before, between ++ .settle d verdict :: after, by simp, ?_⟩
  have later : after.countP isEdit = 0 :=
    List.countP_eq_zero.mpr fun x hx ↦ Bool.eq_false_iff.mp (quiet x hx).1
  rw [List.countP_append, List.countP_cons, countP_isEdit_of_idle idle, later]
  rfl

end Effect

namespace Run

/-- Every dispatch was started as many edits ago as there have been revisions since, and if there
have been none, the question is the one it asks. -/
def Dated (r : Run) (log : List Effect) : Prop :=
  ∀ before d between, log = before ++ .start d :: between →
    r.task.revision = d.revision + UInt64.ofNat (between.countP Effect.isEdit) ∧
      (between.countP Effect.isEdit = 0 → d.request = r.task.question.request)

namespace Dated

variable {r : Run} {log : List Effect} {x : Effect}

theorem new (id : Nat) (question : Question) : Dated (.new id question) [] := by
  intro before d between h
  simp at h

theorem apply (enabled : r.Enabled x) (h : Dated r log) : Dated (r.apply x) (log ++ [x]) := by
  intro before d between split
  rcases Effect.append_singleton_eq_split.mp split with ⟨rfl, rfl, rfl⟩ | ⟨init, rfl, rfl⟩
  · cases enabled
    exact ⟨by simp [Run.apply], fun _ ↦ rfl⟩
  · obtain ⟨revision, request⟩ := h _ _ _ rfl
    rw [List.countP_append, List.countP_singleton]
    cases enabled with
    | edit question =>
        refine ⟨?_, fun unedited ↦ by cases unedited⟩
        change r.task.revision + 1 = _ + UInt64.ofNat (_ + 1)
        rw [revision, word_succ, UInt64.add_assoc]
    | _ => exact ⟨revision, request⟩

/-- The comparison of revisions tells whether anything has happened since the owner was started:
the task has not changed hands, and that is where edits show. -/
theorem revision_eq_iff (h : Dated r log) (few : log.countP Effect.isEdit < UInt64.size)
    {d : Dispatch} (owner : Effect.Owner log d) :
    r.task.revision = d.revision ↔ Effect.Untouched log d := by
  constructor
  · intro same
    obtain ⟨before, between, rfl, kept⟩ := owner
    have counted := (h before d between rfl).1
    have fewer : between.countP Effect.isEdit < UInt64.size := by
      rw [List.countP_append, List.countP_cons] at few
      omega
    have unedited : between.countP Effect.isEdit = 0 :=
      (add_word_eq_self_iff fewer).mp (counted.symm.trans same)
    refine ⟨before, between, rfl, fun x hx ↦ Effect.eq_idle_of_kept (kept x hx) ?_⟩
    simpa using List.countP_eq_zero.mp unedited x hx
  · rintro ⟨before, between, rfl, idle⟩
    rw [(h before d between rfl).1, Effect.countP_isEdit_of_idle idle]
    simp

end Dated

/-- The answer is the last word, as long as there is one. -/
def Backed (r : Run) (log : List Effect) : Prop :=
  ∀ verdict, verdict ≠ .unknown →
    (r.task.answer = verdict ↔ ∃ d, Effect.LastWord log d verdict)

namespace Backed

variable {r : Run} {log : List Effect} {x : Effect}

theorem new (id : Nat) (question : Question) : Backed (.new id question) [] := by
  intro verdict known
  constructor
  · exact fun same ↦ absurd same.symm known
  · rintro ⟨d, before, between, after, split, -⟩
    simp at split

/-- An effect that neither edits nor settles leaves the answer and the last word alone. -/
theorem append_of_quiet {r' : Run} (h : Backed r log) (same : r'.task.answer = r.task.answer)
    (edit : x.isEdit = false) (settle : x.isSettle = false) : Backed r' (log ++ [x]) := by
  intro verdict known
  rw [same, h verdict known]
  refine exists_congr fun d ↦ ?_
  rw [Effect.lastWord_append_singleton]
  constructor
  · exact fun word ↦ .inr ⟨edit, settle, word⟩
  · rintro (⟨rfl, -⟩ | ⟨-, -, word⟩)
    · cases settle
    · exact word

/-- An edit or a settling leaves the answer backed if it makes those verdicts the answer that it
makes the last word. -/
theorem append_of_decisive {r' : Run}
    (decides : ∀ verdict, verdict ≠ .unknown → (r'.task.answer = verdict ↔
      ∃ d, x = .settle d verdict ∧ Effect.Untouched log d))
    (decisive : x.isEdit = true ∨ x.isSettle = true) : Backed r' (log ++ [x]) := by
  intro verdict known
  rw [decides verdict known]
  refine exists_congr fun d ↦ ?_
  rw [Effect.lastWord_append_singleton]
  constructor
  · exact .inl
  · rintro (own | ⟨edit, settle, -⟩)
    · exact own
    · rw [edit, settle] at decisive
      simp at decisive

theorem apply (enabled : r.Enabled x) (accounted : Accounted r log) (owned : Owned r log)
    (dated : Dated r log) (starts : r.started.length ≤ UInt64.size)
    (edits : log.countP Effect.isEdit < UInt64.size) (h : Backed r log) :
    Backed (r.apply x) (log ++ [x]) := by
  cases enabled with
  | start program free => exact h.append_of_quiet rfl rfl rfl
  | abort held => exact h.append_of_quiet rfl rfl rfl
  | idle => exact h.append_of_quiet rfl rfl rfl
  | edit question =>
      refine append_of_decisive (fun verdict known ↦ ?_) (.inl rfl)
      constructor
      · exact fun same ↦ absurd same.symm known
      · rintro ⟨d, own, -⟩
        cases own
  | @settle d verdict started held =>
      have owner := owned.owner_of_outstanding accounted starts started held
      refine append_of_decisive (fun v known ↦ ?_) (.inr rfl)
      change (if r.task.revision = d.revision then verdict else .unknown) = v ↔ _
      have timely := dated.revision_eq_iff edits owner
      constructor
      · intro answer
        by_cases same : r.task.revision = d.revision
        · rw [if_pos same] at answer
          subst answer
          exact ⟨d, rfl, timely.mp same⟩
        · rw [if_neg same] at answer
          exact absurd answer.symm known
      · rintro ⟨d', own, untouched⟩
        cases own
        exact if_pos (timely.mpr untouched)

end Backed

/-- What is kept along a run.  The last two hold as long as the counters have not gone round. -/
structure Guarded (r : Run) (log : List Effect) : Prop where
  accounted : Accounted r log
  owned : Owned r log
  dated : Dated r log
  rightful : r.started.length ≤ UInt64.size → Rightful log
  backed : r.started.length ≤ UInt64.size → log.countP Effect.isEdit < UInt64.size → Backed r log

namespace Guarded

variable {r : Run} {log : List Effect} {x : Effect}

theorem new (id : Nat) (question : Question) : Guarded (.new id question) [] :=
  ⟨.new id question, .new id question, .new id question, fun _ ↦ .nil,
    fun _ _ ↦ .new id question⟩

theorem apply (enabled : r.Enabled x) (h : Guarded r log) : Guarded (r.apply x) (log ++ [x]) := by
  -- a counter that has not gone round after an effect had not done so before
  have earlier (few : (r.apply x).started.length ≤ UInt64.size) : r.started.length ≤ UInt64.size :=
    Nat.le_trans (r.length_started_le_apply x) few
  refine ⟨h.accounted.apply enabled, h.owned.apply enabled, h.dated.apply enabled, ?_, ?_⟩
  · intro starts
    refine (h.rightful (earlier starts)).append_singleton ?_
    rintro d verdict rfl
    exact enabled.owner h.accounted h.owned (earlier starts)
  · intro starts edits
    have fewer : log.countP Effect.isEdit < UInt64.size := by
      rw [List.countP_append] at edits
      exact Nat.lt_of_le_of_lt (Nat.le_add_right _ _) edits
    exact (h.backed (earlier starts) fewer).apply enabled h.accounted h.owned h.dated
      (earlier starts) fewer

theorem ofEvents (id : Nat) (question : Question) (events : List Event) :
    Guarded (.ofEvents id question events) ((Run.new id question).log events) :=
  ofEvents_induction (.new id question) .apply events

end Guarded

/-- **No stale answer.**  As long as neither counter has gone round, an answer is kept exactly as
long as it is the last word: it is the verdict of the dispatch that settled the task last, there has
been no edit since this was started, and it was asked what the question asks now.  Between its start
and its settling the task nothing happened at all, so it had not been given up, and no other had
been started or had settled the task in its place.

Any dispatch that has settled the task owned it then, whether or not its verdict was kept; and no
two dispatches have one generation, so none has settled the task in the name of another.  To give up
a dispatch leaves the answer as it is. -/
theorem answer_iff_lastWord (id : Nat) (question : Question) (events : List Event) :
    let r := ofEvents id question events
    let log := (Run.new id question).log events
    (r.started.length ≤ UInt64.size → log.countP Effect.isEdit < UInt64.size →
      ∀ verdict, verdict ≠ .unknown →
        (r.task.answer = verdict ↔ ∃ before d between after,
          log = before ++ .start d :: between ++ .settle d verdict :: after ∧
            (∀ x ∈ between, x = .idle) ∧
            (∀ x ∈ after, x.isEdit = false ∧ x.isSettle = false) ∧
            d.request = r.task.question.request)) ∧
      (r.started.length ≤ UInt64.size →
        (r.started.map Dispatch.generation).Nodup ∧
          ∀ before d verdict after, log = before ++ .settle d verdict :: after →
            Effect.Owner before d) ∧
      (r.step .abort).task.answer = r.task.answer ∧
      (r.step .drop).task.answer = r.task.answer := by
  intro r log
  have h : Guarded r log := .ofEvents id question events
  refine ⟨fun starts edits verdict known ↦ ?_,
    fun starts ↦ ⟨h.accounted.nodup_generations starts, h.rightful starts⟩, rfl, rfl⟩
  rw [h.backed starts edits verdict known]
  constructor
  · rintro ⟨d, word⟩
    obtain ⟨earlier, since, started, unedited⟩ := word.exists_start
    have request := (h.dated earlier d since started).2 unedited
    obtain ⟨before, between, after, split, idle, quiet⟩ := word
    exact ⟨before, d, between, after, split, idle, quiet, request⟩
  · rintro ⟨before, d, between, after, split, idle, quiet, -⟩
    exact ⟨d, before, between, after, split, idle, quiet⟩

/-- A dispatch that was given up reports while its successor is outstanding, and is not heard. -/
theorem answer_iff_lastWord_successor :
    let question := Question.weakBisimulation "P" "Q"
    let events := [.verify true "", .abort, .verify true "", .report 0 .unsatisfied,
      .report 1 .satisfied, .verify true ""]
    let r := ofEvents 0 question events
    let log := (Run.new 0 question).log events
    (r.started.length ≤ UInt64.size ∧ log.countP Effect.isEdit < UInt64.size ∧
      Verdict.satisfied ≠ .unknown) ∧
      r.task.answer = .satisfied ∧
      (∃ before d between after, log =
        before ++ .start d :: between ++ .settle d .satisfied :: after ∧
          (∀ x ∈ between, x = .idle) ∧
          (∀ x ∈ after, x.isEdit = false ∧ x.isSettle = false) ∧
          d.request = r.task.question.request) ∧
      ∃ before d after, log = before ++ .settle d .satisfied :: after ∧ d.generation = 1 ∧
        Effect.Owner before d := by
  intro question events r log
  have starts : r.started.length ≤ UInt64.size := by decide
  have edits : log.countP Effect.isEdit < UInt64.size := by decide
  have known : Verdict.satisfied ≠ .unknown := by decide
  obtain ⟨fresh, owned, -⟩ := answer_iff_lastWord 0 question events
  have split : log = [.start ⟨0, 0, "", question.request⟩, .abort 0,
      .start ⟨1, 0, "", question.request⟩, .idle] ++
        .settle ⟨1, 0, "", question.request⟩ .satisfied ::
          [.start ⟨2, 0, "", question.request⟩] := by decide
  exact ⟨⟨starts, edits, known⟩, rfl, (fresh starts edits .satisfied known).mp rfl,
    _, _, _, split, rfl, (owned starts).2 _ _ _ _ split⟩

end Run

end ProcessLogic
