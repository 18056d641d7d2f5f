import ProcessLogic.Cli.Arguments
import ProcessLogic.Cli.Report
import ProcessLogic.Task.Basic

/-!
# A session at the command line

From the words of a command line to the text that is printed and the exit status.  The world
around is given as functions: what files hold, what variables are set to, and what the engine of
a configuration does.

A program that cannot be read as text ends the session before any engine is started.  After that
the session reports a verdict whatever the engine does, unless it is interrupted while it waits.
-/

namespace ProcessLogic.Cli

/-- What a session finds around it. -/
structure Surroundings where
  /-- The contents of a file, if it can be read. -/
  file : String → Option (List UInt8)
  /-- The value of a variable, if it is set. -/
  environment : String → Option (List UInt8)
  engine : Config → Behaviour
  /-- Whether the session is interrupted while it waits for the engine. -/
  interrupted : Bool

/-- How a session ended. -/
structure Ending where
  status : Nat
  output : String
  /-- The lines that were sent to an engine; `none` if there was no attempt to start one. -/
  sent : Option (List String)
deriving DecidableEq, Repr

/-- A variable counts as unset if its value is no text. -/
def Surroundings.lookup (s : Surroundings) (name : String) : Option String :=
  (s.environment name).bind Connection.decodeText?

/-- The configuration that the variables and the command line ask for. -/
def Surroundings.config (s : Surroundings) (overrides : Config.Overrides) : Config :=
  (Config.ofLookup s.lookup).override overrides

namespace Session

/-- Asks the question about the text of a program.  There is no ending if the engine is waited
for without end. -/
def check (s : Surroundings) (command : Command) (program : String) : Option Ending :=
  let config := s.config command.overrides
  match (Task.new 0 command.question).verify true program with
  | .error _ => some ⟨1, "", none⟩
  | .ok (dispatch, task) =>
      let exchange := Exchange.run config (s.engine config) dispatch.program dispatch.request
      if s.interrupted then
        some ⟨1, "", some exchange.sent⟩
      else
        exchange.verdict?.map fun verdict =>
          ⟨0, report command.format ((task.settle? dispatch verdict).getD task),
            some exchange.sent⟩

/-- Runs the session of a command line. -/
def run (s : Surroundings) (args : List String) : Option Ending :=
  match Command.ofArguments args with
  | .error refusal => some ⟨refusal.status, "", none⟩
  | .ok command =>
      match (s.file command.program).bind Connection.decodeText? with
      | none => some ⟨1, "", none⟩
      | some program => check s command program

end Session

end ProcessLogic.Cli
