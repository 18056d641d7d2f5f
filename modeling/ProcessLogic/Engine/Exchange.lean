import ProcessLogic.Engine.Connection

/-!
# One exchange with an engine

Every check runs an engine of its own: it is started, told the program and the request, asked for
one reply, and done away with.  The time limit, if there is one, is for all of that.
-/

namespace ProcessLogic

/-- What came of an attempt to check something. -/
structure Exchange where
  /-- The lines that were sent, first line first. -/
  sent : List String
  /-- How it ended; `none` if it goes on for ever. -/
  outcome : Option (Except EngineError Reply)
deriving Repr

namespace Exchange

/-- An exchange that ended with an error. -/
def failed (sent : List String) (error : EngineError) : Exchange := ⟨sent, some (.error error)⟩

/-- An exchange that came to a point where the engine is waited for: the time limit strikes
unless the reply is there before it. -/
def awaited (config : Config) (p : Connection) : Exchange :=
  match config.timeout?, p.receive with
  | none, received => ⟨p.sent, received.map Prod.fst⟩
  | some secs, none => failed p.sent (.timeout secs)
  | some secs, some (reply, _) =>
      if secs.toNat < p.conduct.delay then failed p.sent (.timeout secs)
      else ⟨p.sent, some reply⟩

/-- An exchange whose next message is not taken.  If the engine keeps its input open all the same,
the time limit strikes. -/
def refused (config : Config) (p : Connection) (error : EngineError) : Exchange :=
  if p.conduct.stalls then
    match config.timeout? with
    | none => ⟨p.sent, none⟩
    | some secs => failed p.sent (.timeout secs)
  else
    failed p.sent error

/-- Has an engine check a request about a program. -/
def run (config : Config) (behaviour : Behaviour) (program : String) (request : Request) :
    Exchange :=
  match Connection.start config behaviour with
  | .error error => failed [] error
  | .ok started =>
      match started.send (.program program) with
      | .error error => refused config started error
      | .ok told =>
          match told.send request with
          | .error error => refused config told error
          | .ok asked => awaited config asked

/-- The verdict of an exchange that has ended: unknown if it failed. -/
def verdict? (e : Exchange) : Option Verdict :=
  e.outcome.map fun outcome =>
    match outcome with
    | .ok reply => reply.verdict
    | .error _ => .unknown

end Exchange

end ProcessLogic
