import ProcessLogic.Cli.Report
import ProcessLogic.Proofs.Json.Lines
import ProcessLogic.Proofs.Json.Sorted
import ProcessLogic.Proofs.Task.Record

/-!
# What a report says

A report for people is one line: the question as a sentence, and a word for the verdict.

A report for programs is the text of one object.  The question that is read from it is the question
that was asked, whatever characters it is made of and though its tag has been sorted in among its
fields; the verdict that is read from it is the answer; and what it holds for a page to show is the
statement of the same question and the icon of the same verdict.
-/

namespace ProcessLogic

open Value

namespace Question

/-- A question is read back from its members in the order of their keys. -/
theorem ofValue?_sortMembers (q : Question) :
    ofValue? (.object (sortMembers q.record)) = some q := by
  have same (key : String) := members_sortMembers q.distinct_record key
  rw [ofValue?_congr (fun key _ => same key) q.stringField?_record, q.ofFields?_record]

theorem sortKeys_toValue (q : Question) : q.toValue.sortKeys = .object (sortMembers q.record) := by
  cases q <;> rfl

/-- There are no numbers in a question. -/
theorem every_toValue {p : Number → Prop} (q : Question) : q.toValue.Every p fun _ => True := by
  cases q <;> simp [toValue, fieldValues, kind, Kind.fields, Json.Every, Json.EveryMember]

theorem depth_toValue (q : Question) : q.toValue.depth = 1 := by
  cases q <;> simp [toValue, fieldValues, kind, Kind.fields, Json.membersDepth, Json.depth]

end Question

namespace Cli

variable (t : Task)

/-- The members of a report, in the order in which they are put together. -/
def reportMembers (t : Task) : List (String × Value) :=
  [("id", .number (.integer t.id)),
    ("question", .object (sortMembers t.question.record)),
    ("description", .string (escape t.question.text)),
    ("satisfiable", .string t.answer.name),
    ("status", .string t.answer.indicator)]

theorem reportValue_eq : reportValue t = .object (sortMembers (reportMembers t)) := by
  rw [reportValue, reportMembers, ← t.question.sortKeys_toValue,
    ← t.question.describe_eq_escape_text]
  rfl

theorem map_fst_reportMembers : (reportMembers t).map Prod.fst =
    ["id", "question", "description", "satisfiable", "status"] := rfl

/-- The only number in a report is the id. -/
theorem every_reportValue (word : t.id < UInt64.size) :
    (reportValue t).Every Number.IsWord fun _ => True := by
  have id : Number.IsWord (.integer t.id) := ⟨t.id, word, rfl⟩
  apply every_sortKeys
  simp [Json.Every, Json.EveryMember, id, t.question.every_toValue]

theorem depth_reportValue : (reportValue t).depth ≤ nestingLimit := by
  apply le_trans (depth_sortKeys_le _)
  simp [Json.depth, Json.membersDepth, t.question.depth_toValue, nestingLimit]

theorem toList_report : (report .json t).toList = ((reportValue t).pretty 0).toList ++ ['\n'] :=
  String.toList_append

/-- A report says once what each of its members says. -/
theorem sole?_report (key : String) :
    sole? key (sortMembers (reportMembers t)) = sole? key (reportMembers t) := by
  apply sole?_sortMembers
  rw [map_fst_reportMembers]
  decide

/-- The end of the report's last line is white space. -/
theorem isSpace_ending : ∀ c ∈ ['\n'], Token.isSpace c = true := List.forall_mem_singleton.mpr rfl

theorem read?_report (word : t.id < UInt64.size) :
    Value.read? (report .json t) = some (.object (sortMembers (reportMembers t))) := by
  have read := read?_pretty (every_reportValue t word) (depth_reportValue t) 0 isSpace_ending
  rw [← toList_report, String.ofList_toList, reportValue_eq] at read
  exact read

theorem exists_layout_report (word : t.id < UInt64.size) :
    ∃ members, Layout (Tree.tokens (.object members)) (report .json t).toList := by
  obtain ⟨tree, written, layout⟩ := exists_printed (every_reportValue t word)
  rw [reportValue_eq] at written
  obtain ⟨members, rfl⟩ := Json.exists_of_decode_eq_object written.decode
  rw [toList_report]
  exact ⟨members, (layout 0).append_space isSpace_ending⟩

theorem question_report :
    (sole? "question" (sortMembers (reportMembers t))).bind Question.ofValue? =
      some t.question := by
  rw [sole?_report]
  exact t.question.ofValue?_sortMembers

theorem satisfiable_report :
    sole? "satisfiable" (sortMembers (reportMembers t)) = some (.string t.answer.name) := by
  rw [sole?_report]
  rfl

theorem answer_report :
    (sole? "satisfiable" (sortMembers (reportMembers t))).bind Verdict.ofValue? =
      some t.answer := by
  rw [satisfiable_report]
  exact Verdict.ofName?_name t.answer

/-! ### What is said about a question and a verdict -/

/-- **A report loses nothing.**  It is the text of one object with five members.  From these the id,
the question and the answer are read back, and the other two are the statement of the question, as
markup, and the icon of the answer.

Ids are words of 64 bits. -/
theorem report_lossless (word : t.id < UInt64.size) :
    ∃ members entries,
      Layout (Tree.tokens (.object members)) (report .json t).toList ∧
      Value.read? (report .json t) = some (.object entries) ∧
      entries.map Prod.fst = ["description", "id", "question", "satisfiable", "status"] ∧
      sole? "id" entries = some (.number (.integer t.id)) ∧
      (sole? "question" entries).bind Question.ofValue? = some t.question ∧
      (sole? "satisfiable" entries).bind Verdict.ofValue? = some t.answer ∧
      sole? "description" entries = some (.string (escape t.question.text)) ∧
      sole? "status" entries = some (.string t.answer.indicator) := by
  obtain ⟨members, layout⟩ := exists_layout_report t word
  refine ⟨members, _, layout, read?_report t word, ?keys, ?id, question_report t, answer_report t,
    ?description, ?status⟩
  case keys =>
    refine map_fst_sortMembers (by decide) ?_
    rw [map_fst_reportMembers]
    decide
  case id => rw [sole?_report]; rfl
  case description => rw [sole?_report]; rfl
  case status => rw [sole?_report]; rfl

/-- Every character with a meaning in JSON or in markup is in the question, and a line separator,
and the id is the greatest of all. -/
theorem report_lossless_escaped :
    let t : Task :=
      { id := UInt64.size - 1
        question := .hml "\"P\\'" "<a>tt\n&amp;\u2028 |= ~" true
        answer := .unsatisfied }
    t.id < UInt64.size ∧ ∃ members entries,
      Layout (Tree.tokens (.object members)) (report .json t).toList ∧
      Value.read? (report .json t) = some (.object entries) ∧
      (sole? "question" entries).bind Question.ofValue? = some t.question ∧
      (sole? "satisfiable" entries).bind Verdict.ofValue? = some .unsatisfied ∧
      sole? "description" entries =
        some (.string "&quot;P\\&#39; |= &lt;a&gt;tt\n&amp;amp;\u2028 |= ~") ∧
      sole? "status" entries = some (.string "<i class=\"fa fa-times\"></i>") := by
  intro t
  have word : t.id < UInt64.size := by decide
  have told : escape t.question.text =
      "&quot;P\\&#39; |= &lt;a&gt;tt\n&amp;amp;\u2028 |= ~" := by decide
  obtain ⟨members, entries, l, read, -, -, question, satisfiable, description, status⟩ :=
    report_lossless t word
  rw [told] at description
  exact ⟨word, members, entries, l, read, question, satisfiable, description, status⟩

end Cli

end ProcessLogic
