import ProcessLogic.Engine.Config
import ProcessLogic.Task.Question

/-!
# What a command line asks for

A command line asks one question about a program in a file.  It may also say how the engine is to
be run, and in which format the answer is to be printed.  A command line that asks for nothing of
the kind is refused, which includes those that ask for help.
-/

namespace ProcessLogic.Cli

inductive Format where
  | text
  | json
deriving DecidableEq, Repr

def Format.ofName? : String → Option Format
  | "text" => some .text
  | "json" => some .json
  | _ => none

/-- What is asked, of which program, and how. -/
structure Command where
  question : Question
  /-- The path of the program. -/
  program : String
  overrides : Config.Overrides
  format : Format
deriving DecidableEq, Repr

/-- Why a command line asks no question. -/
inductive Refusal where
  | noArguments
  | help
  | version
  | unknownSubcommand
  | unknownArgument
  /-- A name or the program has not been given. -/
  | missingArgument
  /-- An option has no value, or one that it cannot take. -/
  | badValue
  /-- A time limit is no number of one word. -/
  | badNumber
  /-- A flag or option that may be given once has been given twice. -/
  | repeated
  /-- A flag has been given a value. -/
  | superfluousValue
deriving DecidableEq, Repr

/-- The exit status of a run that is refused: asking for help or for the version is no error. -/
def Refusal.status : Refusal → Nat
  | .help | .version => 0
  | _ => 2

end ProcessLogic.Cli
