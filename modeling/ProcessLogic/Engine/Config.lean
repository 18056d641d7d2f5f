import ProcessLogic.Text.Blank
import ProcessLogic.Text.Decimal
import ProcessLogic.Text.Inspect

/-!
# How an engine is run

The command, its arguments, and a time limit, which is none if it is zero seconds.  They come from
variables of the environment, and a command line may override them.

A variable that is blank counts as unset, and so does one that is no text.  The three variables
are read apart: what is wrong with one leaves the others alone.
-/

namespace ProcessLogic

structure Config where
  command : String := "ccs-verifier"
  args : List String := []
  timeoutSecs : UInt64 := 0
deriving DecidableEq, Repr

namespace Config

/-- The default command, without arguments or a time limit. -/
def default : Config := {}

def ofCommand (command : String) : Config := { command }

def withArgs (c : Config) (args : List String) : Config := { c with args }

def withTimeout (c : Config) (timeoutSecs : UInt64) : Config := { c with timeoutSecs }

/-- The time limit in seconds, if there is one. -/
def timeout? (c : Config) : Option UInt64 := if c.timeoutSecs = 0 then none else some c.timeoutSecs

/-- The variable that names the command. -/
def commandVariable : String := "CCSV_ENGINE"

/-- The variable that holds the arguments, with blanks between them. -/
def argsVariable : String := "CCSV_ENGINE_ARGS"

/-- The variable that holds the time limit in seconds. -/
def timeoutVariable : String := "CCSV_ENGINE_TIMEOUT_SECS"

/-- A value that is not blank. -/
def nonBlank (value : String) : Option String :=
  if value.toList.all isBlank then none else some value

/-- The configuration that variables ask for. -/
def ofLookup (lookup : String → Option String) : Config where
  command := ((lookup commandVariable).bind nonBlank).getD default.command
  args := (((lookup argsVariable).bind nonBlank).map fun value =>
    (words value.toList).map String.ofList).getD default.args
  timeoutSecs := (((lookup timeoutVariable).bind nonBlank).bind fun value =>
    Decimal.word? (trim value.toList)).getD default.timeoutSecs

/-- What a command line may say about the engine. -/
structure Overrides where
  command : Option String := none
  args : List String := []
  timeoutSecs : Option UInt64 := none
deriving DecidableEq, Repr

/-- Applies overrides.  A new command drops the arguments that were meant for another one, unless
it comes with arguments of its own. -/
def override (c : Config) (o : Overrides) : Config where
  command := o.command.getD c.command
  args := if o.args.isEmpty then (if o.command.isSome then [] else c.args) else o.args
  timeoutSecs := o.timeoutSecs.getD c.timeoutSecs

def inspect (c : Config) : String :=
  Inspect.record "EngineConfig"
    [("command", Inspect.string c.command),
      ("args", Inspect.list (c.args.map Inspect.string)),
      ("timeout_secs", .ofList (Decimal.digits c.timeoutSecs.toNat))]

/-- An engine of this configuration, for inspection. -/
def inspectEngine (c : Config) : String :=
  Inspect.partialRecord "Engine" [("config", c.inspect)]

@[simp] theorem override_none (c : Config) : c.override {} = c := rfl

end Config

end ProcessLogic
