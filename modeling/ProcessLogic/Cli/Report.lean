import ProcessLogic.Cli.Command
import ProcessLogic.Task.Basic

/-!
# Reports

The answer to a question is printed as one line for people, or as a JSON document for programs.
The document holds the question as it was asked, so that it can be read back, and everything a
page needs to show the answer.
-/

namespace ProcessLogic.Cli

/-- The line that people read. -/
def reportText (t : Task) : String := t.question.text ++ ": " ++ t.answer.label ++ "\n"

/-- The document that programs read; the keys of all objects are sorted. -/
def reportValue (t : Task) : Value :=
  Value.sortKeys <| .object
    [("id", .number (.integer t.id)),
      ("question", t.question.toValue),
      ("description", .string t.question.describe),
      ("satisfiable", .string t.answer.name),
      ("status", .string t.answer.indicator)]

def report (format : Format) (t : Task) : String :=
  match format with
  | .text => reportText t
  | .json => (reportValue t).pretty 0 ++ "\n"

end ProcessLogic.Cli
