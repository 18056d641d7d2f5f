import ProcessLogic.Engine.Config
import ProcessLogic.Engine.Reply
import ProcessLogic.Engine.Request

/-!
# A running engine

An engine runs outside of this program.  What it does is up to it: it may not start at all, it may
close its input at any time or stop reading it, and it may write any bytes.  A `Behaviour` says
what it does, and a `Connection` is an engine in the middle of it.

## Lines

Replies are separated by newlines.  A reply is decided by its own line alone: a line that is no
text, or no reply, is used up like any other and leaves the next one whole.  Bytes behind the last
newline are a line, unless there are none.
-/

namespace ProcessLogic

/-- Why an engine could not be started. -/
inductive StartFailure where
  | notFound
  | permissionDenied
deriving DecidableEq, Repr

def StartFailure.message : StartFailure → String
  | .notFound => "No such file or directory (os error 2)"
  | .permissionDenied => "Permission denied (os error 13)"

inductive EngineError where
  | spawn (command : String) (why : StartFailure)
  /-- The engine has closed its input. -/
  | brokenPipe
  /-- A line of output is not UTF-8. -/
  | notText
  /-- A line of output is no reply. -/
  | protocol
  | noReply
  | timeout (secs : UInt64)
deriving DecidableEq, Repr

namespace EngineError

/-- The message of an error, where the wording does not depend on who raised it. -/
def message? : EngineError → Option String
  | .spawn command why => some ("failed to start engine `" ++ command ++ "`: " ++ why.message)
  | .noReply => some "engine closed its output without replying"
  | .timeout secs =>
      some ("engine did not reply within " ++ .ofList (Decimal.digits secs.toNat) ++ "s")
  | .brokenPipe | .notText | .protocol => none

end EngineError

/-- What an engine does once it runs. -/
structure Conduct where
  /-- How many messages it takes; `none` if it takes any number. -/
  accepts : Option Nat := none
  /-- Whether it keeps its input open behind these, without reading on. -/
  stalls : Bool := false
  /-- All it ever writes. -/
  output : List UInt8 := []
  /-- Whether it closes its output behind that. -/
  closes : Bool := true
  /-- After how many seconds it writes. -/
  delay : Nat := 0
deriving DecidableEq, Repr

/-- What becomes of an attempt to run an engine. -/
inductive Behaviour where
  | refuses (why : StartFailure)
  | runs (conduct : Conduct)
deriving DecidableEq, Repr

/-- An engine that has been started. -/
structure Connection where
  conduct : Conduct
  /-- The lines it has been sent, first line first. -/
  sent : List String := []
  /-- The output that has not been received yet. -/
  unread : List UInt8 := conduct.output
deriving DecidableEq, Repr

namespace Connection

def newline : UInt8 := 10

/-- Bytes as text, if they are UTF-8. -/
def decodeText? (bytes : List UInt8) : Option String := String.fromUTF8? ⟨bytes.toArray⟩

/-- The reply that a line of output stands for. -/
def decodeLine (line : List UInt8) : Except EngineError Reply :=
  match decodeText? line with
  | none => .error .notText
  | some text =>
      match Reply.read? text with
      | none => .error .protocol
      | some reply => .ok reply

def start (config : Config) : Behaviour → Except EngineError Connection
  | .refuses why => .error (.spawn config.command why)
  | .runs conduct => .ok { conduct }

/-- Whether the engine takes another message. -/
def accepting (p : Connection) : Bool :=
  match p.conduct.accepts with
  | none => true
  | some count => p.sent.length < count

def send (p : Connection) (request : Request) : Except EngineError Connection :=
  if p.accepting then .ok { p with sent := p.sent ++ [request.line] } else .error .brokenPipe

/-- Takes the next line of output.  There is no outcome if the engine keeps its output open
without completing a line. -/
def receive (p : Connection) : Option (Except EngineError Reply × Connection) :=
  match p.unread.dropWhile (· != newline) with
  | _ :: rest =>
      some (decodeLine (p.unread.takeWhile (· != newline)), { p with unread := rest })
  | [] =>
      if !p.conduct.closes then none
      else if p.unread.isEmpty then some (.error .noReply, p)
      else some (decodeLine p.unread, { p with unread := [] })

def inspect : String := Inspect.partialRecord "EngineProcess" [("pid", Inspect.option (some "PID"))]

@[simp] theorem start_refuses (c : Config) (why : StartFailure) :
    start c (.refuses why) = .error (.spawn c.command why) := rfl

@[simp] theorem start_runs (c : Config) (conduct : Conduct) :
    start c (.runs conduct) = .ok { conduct } := rfl

end Connection

end ProcessLogic
