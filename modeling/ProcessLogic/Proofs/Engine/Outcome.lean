import ProcessLogic.Proofs.Engine.Wire

/-!
# What comes of an exchange

Of all that an engine does, an exchange takes notice of little: whether it takes both messages, and
of its output the first line.  Where one of these is missing, or the line is there too late, or it
is no reply, nothing is known; and nothing else an engine could do makes a verdict.

Without a time limit an exchange need not end, and `Endless` says when it does not.
-/

namespace ProcessLogic

/-- The first line of what an engine writes: up to the first newline, or else all of it. -/
def firstLine (output : List UInt8) : List UInt8 := output.takeWhile (· != Connection.newline)

theorem firstLine_append (line rest : List UInt8) :
    firstLine (line ++ Connection.newline :: rest) = firstLine line := by
  induction line with
  | nil => rfl
  | cons byte line ih =>
      rw [firstLine, firstLine] at ih ⊢
      rw [List.cons_append, List.takeWhile_cons, List.takeWhile_cons, ih]

theorem bne_newline_of_mem {line : List UInt8} (h : Connection.newline ∉ line) :
    ∀ byte ∈ line, (byte != Connection.newline) = true := by
  intro byte hbyte
  refine bne_iff_ne.mpr ?_
  rintro rfl
  exact h hbyte

theorem firstLine_eq_self {output : List UInt8} (h : Connection.newline ∉ output) :
    firstLine output = output :=
  List.takeWhile_eq_self_iff.mpr (bne_newline_of_mem h)

namespace Connection

variable {p : Connection}

end Connection

/-- Nothing is no reply. -/
theorem Reply.read?_empty : Reply.read? "" = none := by
  have none : Tree.ofTokens? [] = Option.none := rfl
  simp [Reply.read?, trim, Token.lex, none]

/-! ### The verdict -/

/-- The verdict that an exchange ends with. -/
def Exchange.settled : Except EngineError Reply → Verdict
  | .ok reply => reply.verdict
  | .error _ => .unknown

namespace Exchange

open Connection

variable {config : Config} {conduct : Conduct} {p : Connection} {b : Bool}

/-- What comes of waiting for a reply that is there after so many seconds, or never. -/
def waited (config : Config) (delay : Nat) (received : Option (Except EngineError Reply)) :
    Option (Except EngineError Reply) :=
  match config.timeout?, received with
  | none, received => received
  | some secs, none => some (.error (.timeout secs))
  | some secs, some reply =>
      if secs.toNat < delay then some (.error (.timeout secs)) else some reply

section Waited

variable {delay : Nat} {received : Option (Except EngineError Reply)}

end Waited

end Exchange

end ProcessLogic
