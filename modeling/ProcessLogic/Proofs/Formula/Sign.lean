import ProcessLogic.Formula.Text
import ProcessLogic.Proofs.Text.Stops
import Mathlib.Data.List.Chain

/-!
# The signs a formula is written with

The text of a formula is a row of signs with nothing between them: constants, variables, what
modalities and fixed points put in front of their operands, parentheses, and the separators of
connectives.  If names contain neither spaces nor brackets, and actions no brackets that modalities
are written with, then the sign at the front of a text can be told from the text (`Sign.scan`), and
so can all signs, one after the other (`Sign.eq_of_spelling_eq`).

The one thing to look out for is what comes behind a constant or a variable: nothing that goes on
with the name, and nothing that makes a binder of it.  In the text of a formula it is a closing
parenthesis or a separator, if anything.
-/

namespace ProcessLogic

/-- A bracket that modalities are written with. -/
def isBracket (c : Char) : Bool := c = '<' || c = '>' || c = '[' || c = ']'

/-- A character that names are made of. -/
def isNameChar (c : Char) : Bool := !(c = ' ' || c = '(' || c = ')' || isBracket c)

/-- Not empty, and without spaces, parentheses and brackets. -/
def IsName (name : String) : Prop := name ≠ "" ∧ ∀ c ∈ name.toList, isNameChar c = true

/-- Without the brackets that modalities are written with. -/
def Unbracketed (text : String) : Prop := ∀ c ∈ text.toList, isBracket c = false

instance : DecidablePred IsName := fun name =>
  have : Decidable (∀ c ∈ name.toList, isNameChar c = true) := List.decidableBAll _ _
  inferInstanceAs (Decidable (name ≠ "" ∧ ∀ c ∈ name.toList, isNameChar c = true))

instance : DecidablePred Unbracketed := fun text =>
  (List.decidableBAll _ _ : Decidable (∀ c ∈ text.toList, isBracket c = false))

/-- The smallest parts of the text of a formula. -/
inductive Sign where
  | truth (value : Bool)
  | var (name : String)
  | binder (op : FixedPoint) (name : String)
  | modal (op : Modality) (actions : String)
  | opening
  | closing
  | joint (op : Connective)

namespace Sign

def text : Sign → String
  | truth value => truthText value
  | var name => name
  | binder op name => name ++ op.binder
  | modal op actions => op.opening ++ actions ++ op.closing
  | opening => "("
  | closing => ")"
  | joint op => op.separator

def spelling (s : Sign) : List Char := s.text.toList

/-- What can be told from its text.  A variable must not look like a constant. -/
def Legible : Sign → Prop
  | var name => IsName name ∧ ∀ value, name ≠ truthText value
  | binder _ name => IsName name
  | modal _ actions => Unbracketed actions
  | truth _ | opening | closing | joint _ => True

/-! ### Taking the first sign off a text -/

/-- The sign that a name alone is. -/
def ofName (name : String) : Sign :=
  if name = truthText true then truth true
  else if name = truthText false then truth false
  else var name

/-- The sign that begins with a name. -/
def scanName (name : String) : List Char → Sign × List Char
  | ' ' :: 'm' :: 'i' :: 'n' :: '=' :: ' ' :: rest => (binder .least name, rest)
  | ' ' :: 'm' :: 'a' :: 'x' :: '=' :: ' ' :: rest => (binder .greatest name, rest)
  | rest => (ofName name, rest)

/-- A modality behind its opening brackets. -/
def scanActions (op : Modality) (text : List Char) : Sign × List Char :=
  (modal op (.ofList (text.takeWhile fun c => !isBracket c)),
    (text.dropWhile fun c => !isBracket c).drop op.closing.length)

/-- A modality behind its first opening bracket, which may be doubled. -/
def scanModal (single double : Modality) (bracket : Char) (text : List Char) : Sign × List Char :=
  if text.head? = some bracket then scanActions double text.tail else scanActions single text

/-- The sign at the front of a text that does not begin with a name. -/
def scanMark : List Char → Option (Sign × List Char)
  | '(' :: rest => some (opening, rest)
  | ')' :: rest => some (closing, rest)
  | ' ' :: 'o' :: 'r' :: ' ' :: rest => some (joint .disjunction, rest)
  | ' ' :: 'a' :: 'n' :: 'd' :: ' ' :: rest => some (joint .conjunction, rest)
  | '<' :: rest => some (scanModal .diamond .weakDiamond '<' rest)
  | '[' :: rest => some (scanModal .box .weakBox '[' rest)
  | _ => none

/-- The sign at the front of a text, with what is behind it. -/
def scan (text : List Char) : Option (Sign × List Char) :=
  match text.takeWhile isNameChar with
  | [] => scanMark text
  | name => some (scanName (.ofList name) (text.dropWhile isNameChar))

theorem scan_name {name : String} {rest : List Char} (h : IsName name)
    (stop : Stops isNameChar rest) : scan (name.toList ++ rest) = some (scanName name rest) := by
  have nonempty : name.toList ≠ [] := fun empty => h.1 (String.toList_eq_nil_iff.mp empty)
  rw [scan, stop.takeWhile_append h.2, stop.dropWhile_append h.2]
  split
  · rename_i empty
    exact absurd empty nonempty
  · rw [String.ofList_toList]

theorem scan_mark {c : Char} (h : isNameChar c = false) (text : List Char) :
    scan (c :: text) = scanMark (c :: text) := by
  rw [scan, List.takeWhile_cons_of_neg (by simp [h])]

theorem scanActions_append {op : Modality} {actions : String} (h : Unbracketed actions)
    (rest : List Char) :
    scanActions op (actions.toList ++ (op.closing.toList ++ rest)) = (modal op actions, rest) := by
  have inside : ∀ c ∈ actions.toList, (!isBracket c) = true := fun c hc => by simp [h c hc]
  have stop : Stops (fun c => !isBracket c) (op.closing.toList ++ rest) := by
    cases op <;> exact .cons rfl _
  rw [scanActions, stop.takeWhile_append inside, stop.dropWhile_append inside,
    String.ofList_toList, ← String.length_toList, List.drop_left]

/-- Behind a single opening bracket there is not another one. -/
theorem head?_ne_bracket {actions : String} (h : Unbracketed actions) {bracket c : Char}
    (hb : isBracket bracket = true) (hc : c ≠ bracket) (rest : List Char) :
    (actions.toList ++ c :: rest).head? ≠ some bracket := by
  cases inside : actions.toList with
  | nil => simpa using hc
  | cons first others =>
      intro same
      obtain rfl := Option.some.inj same
      have mem : first ∈ actions.toList := inside ▸ List.mem_cons_self
      exact Bool.eq_false_iff.mp (h first mem) hb

theorem scan_modal {op : Modality} {actions : String} (h : Unbracketed actions) (rest : List Char) :
    scan ((modal op actions).spelling ++ rest) = some (modal op actions, rest) := by
  have spelled : (modal op actions).spelling ++ rest =
      op.opening.toList ++ (actions.toList ++ (op.closing.toList ++ rest)) := by
    rw [spelling, text, String.toList_append, String.toList_append, List.append_assoc,
      List.append_assoc]
  have behind : scanActions op _ = (modal op actions, rest) := scanActions_append h rest
  rw [spelled, ← behind]
  cases op with
  | diamond =>
      refine (scan_mark rfl _).trans (congrArg some (if_neg ?_))
      exact head?_ne_bracket h rfl (by decide) rest
  | box =>
      refine (scan_mark rfl _).trans (congrArg some (if_neg ?_))
      exact head?_ne_bracket h rfl (by decide) rest
  | weakDiamond => exact (scan_mark rfl _).trans (congrArg some (if_pos rfl))
  | weakBox => exact (scan_mark rfl _).trans (congrArg some (if_pos rfl))

/-! ### What may stand behind a name -/

/-- The signs that may stand behind a constant or a variable. -/
def endsAtom : Sign → Bool
  | closing | joint _ => true
  | _ => false

/-- Constants and variables. -/
def isAtom : Sign → Bool
  | truth _ | var _ => true
  | _ => false

/-- Whether one sign may stand behind another. -/
def Before (s t : Sign) : Prop := s.isAtom = true → t.endsAtom = true

variable {s t : Sign} {rest : List Char} {ss ts : List Sign}

theorem stops_of_endsAtom (h : t.endsAtom = true) : Stops isNameChar (t.spelling ++ rest) := by
  cases t with
  | closing => exact .cons rfl _
  | joint op => cases op <;> exact .cons rfl _
  | _ => cases h

theorem scanName_of_endsAtom (h : t.endsAtom = true) (name : String) :
    scanName name (t.spelling ++ rest) = (ofName name, t.spelling ++ rest) := by
  cases t with
  | closing => rfl
  | joint op => cases op <;> rfl
  | _ => cases h

theorem scan_atom {name : String} (h : IsName name)
    (behind : ∀ t ∈ ss.head?, t.endsAtom = true) :
    scan (name.toList ++ ss.flatMap spelling) = some (ofName name, ss.flatMap spelling) := by
  cases ss with
  | nil =>
      rw [List.flatMap_nil, scan_name h .nil]
      rfl
  | cons t ts =>
      have ends := behind t rfl
      rw [List.flatMap_cons, scan_name h (stops_of_endsAtom ends), scanName_of_endsAtom ends]

theorem isName_truthText (value : Bool) : IsName (truthText value) := by
  cases value <;> decide

theorem ofName_truthText (value : Bool) : ofName (truthText value) = truth value := by
  cases value <;> rfl

theorem ofName_of_forall_ne {name : String} (h : ∀ value, name ≠ truthText value) :
    ofName name = var name := by
  rw [ofName, if_neg (h true), if_neg (h false)]

theorem scanName_binder (op : FixedPoint) (name : String) (rest : List Char) :
    scanName name (op.binder.toList ++ rest) = (binder op name, rest) := by
  cases op <;> rfl

/-- The first sign of a row is found again in its text. -/
theorem scan_spelling (legible : s.Legible) (behind : ∀ t ∈ ss.head?, s.Before t) :
    scan (s.spelling ++ ss.flatMap spelling) = some (s, ss.flatMap spelling) := by
  cases s with
  | truth value =>
      have found := scan_atom (isName_truthText value) fun t ht => behind t ht rfl
      rw [ofName_truthText] at found
      exact found
  | var name =>
      have found := scan_atom legible.1 fun t ht => behind t ht rfl
      rw [ofName_of_forall_ne legible.2] at found
      exact found
  | binder op name =>
      have stop : Stops isNameChar (op.binder.toList ++ ss.flatMap spelling) := by
        cases op <;> exact .cons rfl _
      rw [spelling, text, String.toList_append, List.append_assoc, scan_name legible stop,
        scanName_binder]
  | modal op actions => exact scan_modal legible _
  | opening => exact scan_mark rfl _
  | closing => exact scan_mark rfl _
  | joint op => cases op <;> exact scan_mark rfl _

/-- A row of signs that can be told from its text. -/
structure Row (ss : List Sign) : Prop where
  legible : ∀ s ∈ ss, s.Legible
  chain : ss.IsChain Before

theorem Row.scan_eq (h : Row (s :: ss)) :
    scan ((s :: ss).flatMap spelling) = some (s, ss.flatMap spelling) := by
  rw [List.flatMap_cons]
  exact scan_spelling (h.legible s List.mem_cons_self) (List.isChain_cons.mp h.chain).1

theorem Row.tail (h : Row (s :: ss)) : Row ss :=
  ⟨fun t ht => h.legible t (List.mem_cons_of_mem _ ht), (List.isChain_cons.mp h.chain).2⟩

/-- Signs can be told from their text. -/
theorem eq_of_spelling_eq (hs : Row ss) (ht : Row ts)
    (same : ss.flatMap spelling = ts.flatMap spelling) : ss = ts := by
  induction ss generalizing ts with
  | nil =>
      cases ts with
      | nil => rfl
      | cons t ts =>
          have found := ht.scan_eq
          rw [← same] at found
          cases found
  | cons s ss ih =>
      have found := hs.scan_eq
      cases ts with
      | nil =>
          rw [same] at found
          cases found
      | cons t ts =>
          rw [same, ht.scan_eq] at found
          obtain ⟨rfl, rest⟩ := Prod.mk.inj (Option.some.inj found)
          rw [ih hs.tail ht.tail rest.symm]

end Sign

end ProcessLogic
