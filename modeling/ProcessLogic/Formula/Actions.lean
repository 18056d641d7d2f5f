/-!
# The actions a modality ranges over

A modal operator speaks of the transitions whose label is in some set.  The set is any action,
finitely many labels, all but finitely many labels, or one that is known by its text alone.
-/

namespace ProcessLogic

/-- A set of transition labels. -/
inductive Actions where
  | any
  | only (labels : List String)
  | except (labels : List String)
  /-- A set of the caller's own, known by the text that stands for it. -/
  | custom (text : String)
deriving DecidableEq, Repr

namespace Actions

/-- The set of one label. -/
abbrev single (label : String) : Actions := .only [label]

/-- The text between the brackets of a modality. -/
def text : Actions → String
  | .any => "-"
  | .only labels => ",".intercalate labels
  | .except labels => "-" ++ ",".intercalate labels
  | .custom text => text

@[simp] theorem text_any : any.text = "-" := rfl
@[simp] theorem text_single (label : String) : (single label).text = label := rfl
@[simp] theorem text_custom (t : String) : (custom t).text = t := rfl

end Actions

end ProcessLogic
