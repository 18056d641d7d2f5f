import ProcessLogic.Engine.Exchange
import ProcessLogic.Proofs.Json.Written
import ProcessLogic.Task.Question

/-!
# What an engine is told

In one exchange an engine is sent two lines: the program, and the question.  Whatever characters
these are made of, a line ends at its newline and nowhere else, and each line is read back as the
request it was written for.  So no two programs, and no two questions, are the same to the engine.
-/

namespace ProcessLogic

namespace Request

/-- The record of a request says which request it is. -/
theorem ofValue?_toValue (r : Request) : ofValue? r.toValue = some r := by
  cases r <;> rfl

theorem numberless_toValue (r : Request) : r.toValue.Numberless := by
  cases r <;> simp [toValue, fieldValues, kind, Kind.fields, Value.Numberless, Json.Every,
    Json.EveryMember]

theorem depth_toValue (r : Request) : r.toValue.depth ≤ nestingLimit := by
  cases r <;> simp [toValue, fieldValues, kind, Kind.fields, Json.membersDepth, Json.depth,
    nestingLimit]

/-- The characters of a line in front of its newline. -/
def body (r : Request) : List Char := r.toValue.compact.toList

theorem toList_line (r : Request) : r.line.toList = r.body ++ ['\n'] := by
  rw [line, String.toList_append]
  rfl

theorem newline_notMem_body (r : Request) : '\n' ∉ r.body := by
  intro h
  exact absurd (Value.visible_compact r.numberless_toValue _ h) (by decide)

/-- A request is read back, with or without white space behind it. -/
theorem read?_body_append (r : Request) (spaces : List Char)
    (h : ∀ c ∈ spaces, Token.isSpace c = true) : read? (.ofList (r.body ++ spaces)) = some r := by
  rw [read?, body, Value.read?_compact r.numberless_toValue r.depth_toValue h]
  exact r.ofValue?_toValue

theorem read?_body (r : Request) : read? (.ofList r.body) = some r := by
  have bare := r.read?_body_append [] (List.forall_mem_nil _)
  rwa [List.append_nil] at bare

/-- Different requests are different lines. -/
theorem body_injective : Function.Injective body := by
  intro r r' h
  have same : some r = some r' := by
    rw [← r.read?_body, ← r'.read?_body, h]
  exact Option.some.inj same

end Request

namespace Question

/-- Different questions are asked by different requests. -/
theorem request_injective : Function.Injective request := by
  intro q q' h
  cases q <;> cases q' <;> cases h <;> rfl

/-- What is written to an engine in one exchange. -/
def wire (q : Question) (program : String) : String :=
  (Request.program program).line ++ q.request.line

theorem toList_wire (q : Question) (program : String) :
    (q.wire program).toList =
      (Request.program program).body ++ '\n' :: (q.request.body ++ ['\n']) := by
  rw [wire, String.toList_append, Request.toList_line, Request.toList_line, List.append_assoc,
    List.singleton_append]

/-- Cut at newlines, it falls into the two requests, and nothing is left over. -/
theorem pieces_wire (q : Question) (program : String) :
    pieces (· == '\n') (q.wire program).toList =
      [(Request.program program).body, q.request.body, []] := by
  have free (r : Request) : ∀ c ∈ r.body, (c == '\n') = false := by
    intro c hc
    refine beq_false_of_ne ?_
    rintro rfl
    exact r.newline_notMem_body hc
  rw [toList_wire, pieces_append_cons rfl _ (free _), pieces_append_cons rfl _ (free _),
    pieces_nil]

end Question

namespace Exchange

theorem sent_awaited (config : Config) (p : Connection) : (awaited config p).sent = p.sent := by
  unfold awaited
  split
  · rfl
  · rfl
  · split <;> rfl

theorem sent_refused (config : Config) (p : Connection) (error : EngineError) :
    (refused config p error).sent = p.sent := by
  unfold refused
  split
  · split <;> rfl
  · rfl

section Runs

variable {conduct : Conduct}

/-- An engine that takes two messages is waited for once it has them. -/
theorem run_of_takes (h : ∀ count ∈ conduct.accepts, 2 ≤ count) (config : Config)
    (program : String) (request : Request) :
    run config (.runs conduct) program request =
      awaited config { conduct, sent := [(Request.program program).line, request.line] } := by
  obtain ⟨accepts, stalls, output, closes, delay⟩ := conduct
  cases accepts with
  | none => rfl
  | some count =>
      have two : 2 ≤ count := h count rfl
      have first : 0 < count := by omega
      have second : 1 < count := by omega
      simp [run, Connection.send, Connection.accepting, first, second]

/-- An engine that takes fewer messages refuses the next one. -/
theorem run_of_refuses {count : Nat} (h : conduct.accepts = some count) (few : count < 2)
    (config : Config) (program : String) (request : Request) :
    run config (.runs conduct) program request =
      refused config
        { conduct, sent := [(Request.program program).line, request.line].take count }
        .brokenPipe := by
  obtain ⟨accepts, stalls, output, closes, delay⟩ := conduct
  obtain rfl : accepts = some count := h
  match count with
  | 0 => rfl
  | 1 => rfl

/-- An engine takes both messages or refuses one of them. -/
theorem takes_or_refuses (conduct : Conduct) : (∀ count ∈ conduct.accepts, 2 ≤ count) ∨
    ∃ count, conduct.accepts = some count ∧ count < 2 := by
  cases conduct.accepts with
  | none => exact .inl fun count h => by cases h
  | some count =>
      rcases Nat.lt_or_ge count 2 with few | enough
      · exact .inr ⟨count, rfl, few⟩
      · exact .inl fun count' h => Option.some.inj h ▸ enough

end Runs

/-- An engine that takes two messages is sent both. -/
theorem sent_run (config : Config) {conduct : Conduct}
    (h : ∀ count ∈ conduct.accepts, 2 ≤ count) (program : String) (request : Request) :
    (run config (.runs conduct) program request).sent =
      [(Request.program program).line, request.line] := by
  rw [run_of_takes h, sent_awaited]

/-- Whatever an engine does, it is sent the program and the request and nothing else, though it may
not live to see both. -/
theorem sent_run_prefix (config : Config) (behaviour : Behaviour) (program : String)
    (request : Request) :
    (run config behaviour program request).sent <+:
      [(Request.program program).line, request.line] := by
  cases behaviour with
  | refuses why => exact List.nil_prefix
  | runs conduct =>
      rcases takes_or_refuses conduct with takes | ⟨count, accepts, few⟩
      · exact ⟨[], by rw [List.append_nil, sent_run config takes]⟩
      · rw [run_of_refuses accepts few, sent_refused]
        exact List.take_prefix _ _

end Exchange

namespace Question

/-- Different programs and questions look different to an engine. -/
theorem wire_injective : Function.Injective fun asked : String × Question =>
    asked.2.wire asked.1 := by
  rintro ⟨program, q⟩ ⟨program', q'⟩ h
  have cut : pieces (· == '\n') (q.wire program).toList =
      pieces (· == '\n') (q'.wire program').toList := by
    rw [show q.wire program = q'.wire program' from h]
  rw [pieces_wire, pieces_wire] at cut
  obtain ⟨first, rest⟩ := List.cons.inj cut
  obtain ⟨second, -⟩ := List.cons.inj rest
  have told : Request.program program = Request.program program' := Request.body_injective first
  have asked : q = q' := request_injective (Request.body_injective second)
  rw [Request.program.inj told, asked]

/-- The wire carries a program and a question without loss.  What an engine is sent is the text
`wire`, all of it or, if the engine closes its input early, the part in front of one of the lines.
The text has two newlines, one at the end of each line, and each line is read back as what it was
written for, with its newline or without. -/
theorem wire_lossless :
    (∀ config behaviour program (q : Question),
      (Exchange.run config behaviour program q.request).sent <+:
        [(Request.program program).line, q.request.line]) ∧
    (∀ config conduct program (q : Question), (∀ count ∈ conduct.accepts, 2 ≤ count) →
      String.join (Exchange.run config (.runs conduct) program q.request).sent =
        q.wire program) ∧
    (∀ program (q : Question), (q.wire program).toList.count '\n' = 2 ∧
      ∃ first second : List Char,
        (q.wire program).toList = first ++ '\n' :: (second ++ ['\n']) ∧
        '\n' ∉ first ∧ '\n' ∉ second ∧
        (Request.program program).line = .ofList (first ++ ['\n']) ∧
        q.request.line = .ofList (second ++ ['\n']) ∧
        (∀ ending ∈ [[], ['\n']],
          Request.read? (.ofList (first ++ ending)) = some (.program program) ∧
          Request.read? (.ofList (second ++ ending)) = some q.request)) ∧
    Function.Injective fun asked : String × Question => asked.2.wire asked.1 := by
  refine ⟨?sent, ?whole, ?lines, wire_injective⟩
  case sent =>
    intro config behaviour program q
    exact Exchange.sent_run_prefix config behaviour program q.request
  case whole =>
    intro config conduct program q h
    rw [Exchange.sent_run config h]
    rfl
  case lines =>
    intro program q
    have line_eq (r : Request) : r.line = .ofList (r.body ++ ['\n']) := by
      rw [← r.toList_line, String.ofList_toList]
    refine ⟨?_, (Request.program program).body, q.request.body, q.toList_wire program,
      Request.newline_notMem_body _, Request.newline_notMem_body _, line_eq _, line_eq _, ?_⟩
    · rw [toList_wire, List.count_append, List.count_cons_self, List.count_append,
        List.count_eq_zero_of_not_mem (Request.newline_notMem_body _),
        List.count_eq_zero_of_not_mem (Request.newline_notMem_body _)]
      rfl
    · intro ending h
      have blank : ∀ c ∈ ending, Token.isSpace c = true := by
        rcases List.mem_pair.mp h with rfl | rfl
        · exact List.forall_mem_nil _
        · exact List.forall_mem_singleton.mpr rfl
      exact ⟨Request.read?_body_append _ _ blank, Request.read?_body_append _ _ blank⟩

/-- The program has line breaks of three sorts, a quote and a backslash in it, and the engine takes
no third message. -/
theorem wire_lossless_breaks :
    let program := "P = \"a\\n\".P\n\r\u2028Q = 0"
    let q : Question := .hml "P" "<a>tt\n" true
    let conduct : Conduct := { accepts := some 2 }
    (∀ count ∈ conduct.accepts, 2 ≤ count) ∧
      String.join (Exchange.run {} (.runs conduct) program q.request).sent = q.wire program := by
  intro program q conduct
  have two : ∀ count ∈ conduct.accepts, 2 ≤ count := by
    intro count h
    cases h
    exact Nat.le_refl 2
  exact ⟨two, wire_lossless.2.1 {} conduct program q two⟩

end Question

end ProcessLogic
