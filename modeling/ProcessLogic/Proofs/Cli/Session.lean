import ProcessLogic.Cli.Session
import ProcessLogic.Proofs.Cli.Reading
import ProcessLogic.Proofs.Cli.Report
import ProcessLogic.Proofs.Engine.Answer
import ProcessLogic.Proofs.Engine.Outcome

/-!
# What a session prints

A session whose command line is read ends in one of two ways.  Without a program it fails and says
nothing; with one it prints a report about the question it was asked, and the verdict in the report
is that of the engine.  `Reports` says what such a report is: the words that stand on the line, or
what is read back from the document.  Nothing an engine does can make the session fail, and nothing
but a plain answer makes it print a verdict.
-/

namespace ProcessLogic.Cli.Session

variable {s : Surroundings} {args : List String} {command : Command} {program : String}

/-- The task whose report is printed. -/
def answered (question : Question) (verdict : Verdict) : Task :=
  { id := 0, question, answer := verdict }

/-- The exchange that a session has about a program. -/
def exchange (s : Surroundings) (command : Command) (program : String) : Exchange :=
  let config := s.config command.overrides
  .run config (s.engine config) program command.question.request

section Parsed

variable (parsed : Command.ofArguments args = .ok command)

include parsed

end Parsed

end ProcessLogic.Cli.Session
