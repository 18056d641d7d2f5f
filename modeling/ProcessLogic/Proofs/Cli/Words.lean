import ProcessLogic.Cli.Arguments

/-!
# The words of a command line

What the words behind a subcommand are taken for, said without reading them from left to right:
`Taken` relates them to a row of items.  An item is one of the names, the switch for strictness, or
the value of a setting, and the words are its spelling.

Words can be taken in one way only.  A word that is not the value of the setting in front of it has
a role of its own, and the role is up to its shape.  So a command line asks at most one question.
-/

namespace ProcessLogic.Cli

/-! ### The spelling of items -/

/-- The long name of a setting. -/
def Setting.name : Setting → String
  | .program => "program"
  | .engine => "engine"
  | .engineArg => "engine-arg"
  | .timeout => "timeout"
  | .format => "format"

/-- A word that can be a name or a value: it is no hyphen with something behind it. -/
def IsName (word : String) : Prop := ∀ rest, word.toList = '-' :: rest → rest = []

/-- A word opens a setting, with its value attached or still to come. -/
inductive Opens : Setting → Option String → String → Prop
  | long (s : Setting) : Opens s none ("--" ++ s.name)
  | attached (s : Setting) (value : String) : Opens s (some value) ("--" ++ s.name ++ "=" ++ value)
  | short : Opens .program none "-p"
  | shortAttached (value : String) : Opens .program (some value) ("-p=" ++ value)
  | joined (value : String) (h : ∃ c rest, value.toList = c :: rest ∧ c ≠ '=') :
      Opens .program (some value) ("-p" ++ value)

/-- What words are taken for. -/
inductive Item where
  | name (word : String)
  | strict
  | setting (s : Setting) (value : String)
deriving DecidableEq, Repr

/-- A word is the spelling of an item. -/
inductive Word (sub : Subcommand) : String → Item → Prop
  | name {word : String} (h : IsName word) : Word sub word (.name word)
  | strict (h : sub = .hml) : Word sub "--strict" .strict
  | attached {s : Setting} {value word : String} (h : Opens s (some value) word) :
      Word sub word (.setting s value)

/-- The words behind a subcommand are the spellings of items. -/
inductive Taken (sub : Subcommand) : List String → List Item → Prop
  | nil : Taken sub [] []
  | word {word : String} {item : Item} {words : List String} {items : List Item}
      (h : Word sub word item) (rest : Taken sub words items) :
      Taken sub (word :: words) (item :: items)
  | apart {s : Setting} {word value : String} {words : List String} {items : List Item}
      (h : Opens s none word) (hvalue : s = .engineArg ∨ IsName value)
      (rest : Taken sub words items) :
      Taken sub (word :: value :: words) (.setting s value :: items)
  | literal (words : List String) : Taken sub ("--" :: words) (words.map .name)

namespace Item

/-- The names among items. -/
def names (items : List Item) : List String :=
  items.filterMap fun item =>
    match item with
    | .name word => some word
    | _ => none

/-- The values of a setting among items. -/
def values (s : Setting) (items : List Item) : List String :=
  items.filterMap fun item =>
    match item with
    | .setting s' value => if s' = s then some value else none
    | _ => none

@[simp] theorem names_nil : names [] = [] := rfl
@[simp] theorem names_append (items items' : List Item) :
    names (items ++ items') = names items ++ names items' := List.filterMap_append
@[simp] theorem names_name (word : String) : names [.name word] = [word] := rfl
@[simp] theorem names_strict : names [.strict] = [] := rfl
@[simp] theorem names_setting (s : Setting) (value : String) : names [.setting s value] = [] := rfl

variable (s : Setting)

@[simp] theorem values_nil : values s [] = [] := rfl
@[simp] theorem values_append (items items' : List Item) :
    values s (items ++ items') = values s items ++ values s items' := List.filterMap_append
@[simp] theorem values_name (word : String) : values s [.name word] = [] := rfl
@[simp] theorem values_strict : values s [.strict] = [] := rfl

theorem values_setting (s' : Setting) (value : String) :
    values s [.setting s' value] = if s' = s then [value] else [] := by
  by_cases h : s' = s <;> simp [values, h]

end Item

/-! ### The role of a word -/

/-- What a word can be that is not the value of the setting in front of it. -/
inductive Role where
  | item (item : Item)
  | opens (s : Setting)
  | separator

/-- The role of an option of a setting. -/
def Role.ofSetting (s : Setting) : Option String → Role
  | none => .opens s
  | some value => .item (.setting s value)

/-- The role of a word, by its shape. -/
def Role.of? (word : String) : Option Role :=
  match Shape.of word with
  | .separator => some .separator
  | .plain => some (.item (.name word))
  | .short 'p' rest => some (ofSetting .program (Reading.shortValue rest))
  | .short _ _ => none
  | .long name value =>
      match Flag.ofName? .hml name with
      | some (.setting s) => some (ofSetting s value)
      | some .strict => some (.item .strict)
      | _ => none

theorem Role.of?_short {word : String} {rest : List Char} (h : Shape.of word = .short 'p' rest) :
    of? word = some (ofSetting .program (Reading.shortValue rest)) := by
  rw [of?, h]
  rfl

theorem Setting.ofName?_name (sub : Subcommand) (s : Setting) :
    Flag.ofName? sub s.name = some (.setting s) := by
  cases s <;> rfl

theorem Setting.shape_attached (s : Setting) (value : String) :
    Shape.of ("--" ++ s.name ++ "=" ++ value) = .long s.name (some value) := by
  obtain ⟨chars, rfl⟩ : ∃ chars, value = .ofList chars :=
    ⟨value.toList, String.ofList_toList.symm⟩
  have spelled : ("--" ++ s.name ++ "=" ++ .ofList chars).toList =
      '-' :: '-' :: (s.name.toList ++ '=' :: chars) := by
    simp
  rw [Shape.of, spelled]
  cases s <;> rfl

theorem IsName.shape {word : String} (h : IsName word) : Shape.of word = .plain := by
  rw [Shape.of, Shape.ofChars.eq_def]
  split
  case h_4 => rfl
  all_goals
    rename_i same
    cases h _ same

/-- How an option is spelled settles its shape. -/
theorem Opens.shape_eq {s : Setting} {value : Option String} {word : String}
    (h : Opens s value word) :
    Shape.of word = .long s.name value ∨
      s = .program ∧ ∃ rest, Shape.of word = .short 'p' rest ∧ Reading.shortValue rest = value := by
  cases h with
  | long s =>
      refine .inl ?_
      cases s <;> rfl
  | attached s value => exact .inl (s.shape_attached value)
  | short => exact .inr ⟨rfl, [], rfl, rfl⟩
  | shortAttached value =>
      refine .inr ⟨rfl, '=' :: value.toList, ?_, ?_⟩
      · rw [Shape.of, String.toList_append]
        rfl
      · rw [Reading.shortValue, String.ofList_toList]
  | joined value h =>
      obtain ⟨c, rest, same, noEquals⟩ := h
      refine .inr ⟨rfl, value.toList, ?_, ?_⟩
      · rw [Shape.of, String.toList_append]
        rfl
      · unfold Reading.shortValue
        split
        · rename_i empty
          rw [same] at empty
          cases empty
        · rename_i equals
          rw [same] at equals
          exact absurd (List.cons.inj equals).1 noEquals
        · rw [String.ofList_toList]

/-- How an option is spelled settles its role. -/
theorem Opens.role_eq {s : Setting} {value : Option String} {word : String}
    (h : Opens s value word) : Role.of? word = some (.ofSetting s value) := by
  rcases h.shape_eq with shape | ⟨rfl, rest, shape, given⟩
  · rw [Role.of?, shape]
    dsimp only
    rw [Setting.ofName?_name]
  · rw [Role.of?_short shape, given]

theorem Word.role_eq {sub : Subcommand} {word : String} {item : Item} (h : Word sub word item) :
    Role.of? word = some (.item item) := by
  cases h with
  | name h => rw [Role.of?, h.shape]
  | strict h => rfl
  | attached h => exact h.role_eq

/-- Words can be taken in one way only. -/
theorem Taken.unique {sub : Subcommand} {words : List String} {items items' : List Item}
    (h : Taken sub words items) (h' : Taken sub words items') : items = items' := by
  -- The role of the first word excludes all rules but the one it was taken by.
  induction h generalizing items' with
  | nil =>
      cases h'
      rfl
  | word first _ ih =>
      cases h' with
      | word first' rest' =>
          have same := first.role_eq.symm.trans first'.role_eq
          cases same
          rw [ih rest']
      | apart first' _ _ => cases first.role_eq.symm.trans first'.role_eq
      | literal words => cases first.role_eq
  | apart first _ _ ih =>
      cases h' with
      | word first' rest' => cases first.role_eq.symm.trans first'.role_eq
      | apart first' _ rest' =>
          have same := first.role_eq.symm.trans first'.role_eq
          cases same
          rw [ih rest']
      | literal words => cases first.role_eq
  | literal words =>
      cases h' with
      | word first' _ => cases first'.role_eq
      | apart first' _ _ => cases first'.role_eq
      | literal words => rfl

/-! ### What is asked -/

/-- The word that names a subcommand. -/
def Subcommand.name : Subcommand → String
  | .strong => "strong"
  | .weak => "weak"
  | .hml => "hml"

theorem Subcommand.ofName?_name (sub : Subcommand) : ofName? sub.name = some sub := by
  cases sub <;> rfl

theorem Subcommand.name_of_ofName? {sub : Subcommand} {word : String}
    (h : ofName? word = some sub) : word = sub.name := by
  unfold ofName? at h
  split at h <;> cases h <;> rfl

/-- A command line asks a question about the program in a file: its first word says which kind of
question, and the others spell the two names, the file, and whether the semantics are strict. -/
inductive Asks : List String → Question → String → Prop
  | intro (sub : Subcommand) {words : List String} {items : List Item} {first second file : String}
      (taken : Taken sub words items) (names : Item.names items = [first, second])
      (program : Item.values .program items = [file]) :
      Asks (sub.name :: words) (Reading.question sub first second (items.contains .strict)) file

/-- No command line asks two questions. -/
theorem Asks.unique {args : List String} {question question' : Question} {file file' : String}
    (h : Asks args question file) (h' : Asks args question' file') :
    question = question' ∧ file = file' := by
  generalize same : args = args' at h'
  obtain ⟨sub, taken, names, program⟩ := h
  obtain ⟨sub', taken', names', program'⟩ := h'
  obtain ⟨sameName, rfl⟩ := List.cons.inj same
  obtain rfl : sub = sub' := by
    rw [← Option.some.injEq, ← sub.ofName?_name, sameName, sub'.ofName?_name]
  obtain rfl := taken.unique taken'
  obtain ⟨rfl, rest⟩ := List.cons.inj (names.symm.trans names')
  obtain rfl := List.singleton_inj.mp rest
  obtain rfl := List.singleton_inj.mp (program.symm.trans program')
  exact ⟨rfl, rfl⟩

end ProcessLogic.Cli
