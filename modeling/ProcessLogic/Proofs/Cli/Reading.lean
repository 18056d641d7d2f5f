import ProcessLogic.Proofs.Cli.Words
import ProcessLogic.Proofs.Except

/-!
# Reading a command line word by word

Whatever command is read from a command line, the command line asks its question about its program.

The invariant of the words read so far has two parts.  What a reading holds is what the items say
that have been taken (`Extends`); and what the remaining words mean depends on whether the reading
is in the middle of an item, or past all options (`TakenFrom`).
-/

namespace ProcessLogic.Cli

/-! ### Words by their shapes -/

theorem Flag.name_of_setting {sub : Subcommand} {name : String} {s : Setting}
    (h : ofName? sub name = some (.setting s)) : name = s.name := by
  unfold ofName? at h
  split at h
  case h_6 => split at h <;> cases h
  all_goals cases h
  all_goals rfl

theorem Flag.name_of_strict {sub : Subcommand} {name : String}
    (h : ofName? sub name = some .strict) : name = "strict" ∧ sub = .hml := by
  unfold ofName? at h
  split at h
  case h_6 =>
    split at h
    · rename_i hml
      exact ⟨rfl, hml⟩
    · cases h
  all_goals cases h

namespace Shape

variable {word name : String} {letter : Char} {rest : List Char}

theorem eq_of_separator (h : of word = .separator) : word = "--" := by
  refine String.toList_inj.mp ?_
  rw [of, ofChars.eq_def] at h
  split at h
  case h_1 same => exact same
  all_goals cases h

/-- A part in front of an equals sign, and what is attached behind it. -/
theorem ofList_append_attached (chars : List Char) :
    String.ofList (chars.takeWhile (· != '=')) ++
      ((attached (chars.dropWhile (· != '='))).elim "" fun value => "=" ++ value) =
        .ofList chars := by
  refine String.toList_inj.mp ?_
  rw [String.toList_append, String.toList_ofList, String.toList_ofList]
  cases back : chars.dropWhile (· != '=') with
  | nil =>
      have whole := List.takeWhile_append_dropWhile (p := (· != '=')) (l := chars)
      rw [back] at whole
      exact whole
  | cons c value =>
      have whole := List.takeWhile_append_dropWhile (p := (· != '=')) (l := chars)
      have stops : c = '=' := by
        have first := List.head_dropWhile_not (p := (· != '=')) (l := chars) (by simp [back])
        simpa [back] using first
      subst stops
      rw [attached, Option.elim_some, String.toList_append, String.toList_ofList,
        String.toList_ofList]
      rwa [back] at whole

theorem eq_of_long {value : Option String} (h : of word = .long name value) :
    word = "--" ++ (name ++ (value.elim "" fun value => "=" ++ value)) := by
  rw [of, ofChars.eq_def] at h
  split at h
  case h_2 rest _ same =>
    obtain ⟨rfl, rfl⟩ := Shape.long.inj h
    rw [ofList_append_attached]
    refine String.toList_inj.mp ?_
    rw [same, String.toList_append, String.toList_ofList, String.toList_ofList]
    rfl
  all_goals cases h

theorem eq_of_short (h : of word = .short letter rest) : word.toList = '-' :: letter :: rest := by
  rw [of, ofChars.eq_def] at h
  split at h
  case h_3 same =>
    obtain ⟨rfl, rfl⟩ := Shape.short.inj h
    exact same
  all_goals cases h

theorem isName_of_plain (h : of word = .plain) : IsName word := by
  intro rest same
  rw [of, same] at h
  rw [ofChars.eq_def] at h
  split at h
  case h_4 noLong noShort =>
    cases rest with
    | nil => rfl
    | cons letter rest => exact absurd rfl (noShort letter rest)
  all_goals cases h

end Shape

/-! ### Reading -/

namespace Reading

open Item

variable {sub : Subcommand} {r r' r'' : Reading} {s : Setting} {value word : String}

/-- The programs that have been given so far, one that is not settled yet included. -/
def programs (r : Reading) : List String :=
  r.program.toList ++
    match r.pending with
    | some (.program, some value) => [value]
    | _ => []

/-- The setting whose value is to be the next word. -/
def awaits (r : Reading) : Option Setting :=
  match r.pending with
  | some (s, none) => some s
  | _ => none

/-- A reading holds what another one holds, and items besides. -/
structure Extends (r : Reading) (items : List Item) (r' : Reading) : Prop where
  names : r'.names = r.names ++ Item.names items
  strict : r'.strict = (r.strict || items.contains .strict)
  programs : r'.programs = r.programs ++ values .program items

theorem Extends.refl (r : Reading) : Extends r [] r :=
  ⟨(List.append_nil _).symm, (Bool.or_false _).symm, (List.append_nil _).symm⟩

theorem Extends.trans {items items' : List Item} (h : Extends r items r')
    (h' : Extends r' items' r'') : Extends r (items ++ items') r'' where
  names := by rw [h'.names, h.names, names_append, List.append_assoc]
  strict := by rw [h'.strict, h.strict, List.contains_append, Bool.or_assoc]
  programs := by rw [h'.programs, h.programs, values_append, List.append_assoc]

/-- What may be given once has not been given before. -/
theorem once_eq_ok {α : Type} {old got : Option α} {new : Except Refusal α}
    (h : once old new = .ok got) : old = none ∧ ∃ x, new = .ok x ∧ got = some x := by
  unfold once at h
  split at h
  · cases h
  · rename_i fresh
    obtain ⟨x, hx, rfl⟩ := exists_of_map_eq_ok h
    exact ⟨Option.not_isSome_iff_eq_none.mp fresh, x, hx, rfl⟩

/-- Giving a setting its value changes nothing else. -/
theorem extends_of_set (idle : r.pending = none) (h : r.set s value = .ok r') :
    Extends r [.setting s value] r' ∧ r'.pending = none ∧ r'.literal = r.literal := by
  cases s with
  | program =>
      obtain ⟨program, hprogram, rfl⟩ := exists_of_map_eq_ok h
      obtain ⟨fresh, x, hx, rfl⟩ := once_eq_ok hprogram
      obtain rfl : value = x := by
        split at hx
        · cases hx
        · exact Except.ok.inj hx
      exact ⟨⟨by simp, by simp, by simp [programs, values_setting, idle, fresh]⟩, idle, rfl⟩
  | engineArg =>
      obtain rfl := Except.ok.inj h
      exact ⟨⟨by simp, by simp, by simp [programs, values_setting]⟩, idle, rfl⟩
  | _ =>
      obtain ⟨got, -, rfl⟩ := exists_of_map_eq_ok h
      exact ⟨⟨by simp, by simp, by simp [programs, values_setting]⟩, idle, rfl⟩

/-- Settling what is pending changes nothing that is held. -/
theorem extends_of_settle (h : r.settle = .ok r') :
    r.awaits = none ∧ Extends r [] r' ∧ r'.pending = none ∧ r'.literal = r.literal := by
  unfold settle at h
  split at h
  · rename_i idle
    obtain rfl := Except.ok.inj h
    exact ⟨by rw [awaits, idle], .refl r, idle, rfl⟩
  · cases h
  · rename_i s value pending
    obtain ⟨extends', idle, literal⟩ := extends_of_set (r := { r with pending := none }) rfl h
    refine ⟨by rw [awaits, pending], ⟨by simp [extends'.names], by simp [extends'.strict], ?_⟩,
      idle, literal⟩
    rw [extends'.programs, programs, programs, pending]
    cases s <;> simp [values_setting]

/-- A name comes behind what is settled. -/
theorem extends_of_takeName (h : r.takeName word = .ok r') :
    r.awaits = none ∧ Extends r [.name word] r' ∧ r'.pending = none ∧ r'.literal = r.literal := by
  unfold takeName at h
  split at h
  · cases h
  · obtain ⟨settled, hsettled, rfl⟩ := exists_of_map_eq_ok h
    obtain ⟨ready, extends', idle, literal⟩ := extends_of_settle hsettled
    exact ⟨ready, extends'.trans ⟨by simp, by simp, by simp [programs]⟩, idle, literal⟩

/-- What a word makes of a reading: it is an item, it opens one, or it ends the options. -/
inductive Step (sub : Subcommand) (r : Reading) (word : String) (r' : Reading) : Prop
  | item {item : Item} (h : Word sub word item) (extends' : Extends r [item] r')
      (ready : r'.awaits = none) (options : r'.literal = false)
  | opens {s : Setting} (h : Opens s none word) (extends' : Extends r [] r')
      (awaits : r'.awaits = some s) (options : r'.literal = false)
  | separator (h : word = "--") (extends' : Extends r [] r') (ready : r'.awaits = none)
      (literal : r'.literal = true)

/-- An option that opens a setting. -/
theorem step_of_takeSetting {value : Option String} (opens : Opens s value word)
    (h : r.takeSetting s value = .ok r') (options : r.literal = false) : Step sub r word r' := by
  obtain ⟨settled, hsettled, h⟩ := exists_of_bind_eq_ok h
  obtain ⟨-, extends₁, idle, literal⟩ := extends_of_settle hsettled
  cases value with
  | some value =>
      obtain ⟨extends₂, idle', literal'⟩ := extends_of_set idle h
      exact .item (.attached opens) (extends₁.trans extends₂) (by rw [awaits, idle'])
        (literal'.trans (literal.trans options))
  | none =>
      obtain rfl := Except.ok.inj h
      exact .opens opens (extends₁.trans ⟨by simp, by simp, by simp [programs, idle]⟩) rfl
        (literal.trans options)

theorem opens_of_shortValue {rest : List Char} (h : word.toList = '-' :: 'p' :: rest) :
    Opens .program (shortValue rest) word := by
  have same (text : String) (htext : text.toList = word.toList) : text = word :=
    String.toList_inj.mp htext
  unfold shortValue
  split
  · rw [← same "-p" (by rw [h]; rfl)]
    exact .short
  · rename_i value
    rw [← same ("-p=" ++ .ofList value) (by simp [h])]
    exact .shortAttached _
  · rename_i nonempty noEquals
    rw [← same ("-p" ++ .ofList rest) (by simp [h])]
    refine .joined _ ?_
    rw [String.toList_ofList]
    cases rest with
    | nil => exact absurd rfl nonempty
    | cons c rest => exact ⟨c, rest, rfl, fun equals => noEquals rest (by rw [equals])⟩

theorem step_of_takeLong {name : String} {value : Option String}
    (shape : Shape.of word = .long name value) (h : r.takeLong sub name value = .ok r')
    (options : r.literal = false) : Step sub r word r' := by
  have spelled := Shape.eq_of_long shape
  unfold takeLong at h
  split at h
  · cases h
  · rename_i s flag
    obtain rfl := Flag.name_of_setting flag
    refine step_of_takeSetting ?_ h options
    cases value with
    | none =>
        rw [spelled, Option.elim_none, String.append_empty]
        exact .long s
    | some value =>
        rw [spelled, Option.elim_some, ← String.append_assoc, ← String.append_assoc]
        exact .attached s value
  · rename_i flag
    obtain ⟨rfl, hml⟩ := Flag.name_of_strict flag
    split at h
    · cases h
    · rename_i bare
      obtain ⟨settled, hsettled, h⟩ := exists_of_bind_eq_ok h
      obtain ⟨-, extends₁, idle, literal⟩ := extends_of_settle hsettled
      split at h
      · cases h
      · obtain rfl := Except.ok.inj h
        obtain rfl := Option.not_isSome_iff_eq_none.mp bare
        obtain rfl : word = "--strict" := spelled
        exact .item (.strict hml) (extends₁.trans ⟨by simp, by simp, by simp [programs]⟩)
          (by rw [awaits, idle]) (literal.trans options)
  · split at h
    · cases h
    · obtain ⟨settled, -, h⟩ := exists_of_bind_eq_ok h
      cases h

theorem step_of_takeShort {letter : Char} {rest : List Char}
    (shape : Shape.of word = .short letter rest) (h : r.takeShort letter rest = .ok r')
    (options : r.literal = false) : Step sub r word r' := by
  have spelled := Shape.eq_of_short shape
  unfold takeShort at h
  split at h
  · exact step_of_takeSetting (opens_of_shortValue spelled) h options
  · obtain ⟨settled, -, h⟩ := exists_of_bind_eq_ok h
    cases h
  · cases h

/-- All that a word can be to a reading that does not wait for a value, and takes options. -/
theorem step_cases (h : step sub r word = .ok r') (ready : r.awaits = none)
    (options : r.literal = false) : Step sub r word r' := by
  unfold step at h
  rw [options, if_neg Bool.false_ne_true] at h
  split at h
  · rename_i pending
    rw [awaits, pending] at ready
    cases ready
  · split at h
    · rename_i shape
      obtain rfl := Except.ok.inj h
      exact .separator (Shape.eq_of_separator shape) ⟨by simp, by simp, by simp [programs]⟩
        ready rfl
    · rename_i shape
      exact step_of_takeLong shape h options
    · rename_i shape
      exact step_of_takeShort shape h options
    · rename_i shape
      unfold takePlain at h
      split at h
      · rename_i pending
        rw [awaits, pending] at ready
        cases ready
      · obtain ⟨-, extends', idle, literal⟩ := extends_of_takeName h
        exact .item (.name (Shape.isName_of_plain shape)) extends' (by rw [awaits, idle])
          (literal.trans options)

/-- In front of an option everything is settled. -/
theorem exists_settle_of_takeLong {name : String} {value : Option String}
    (h : r.takeLong sub name value = .ok r') : ∃ settled, r.settle = .ok settled := by
  unfold takeLong at h
  split at h
  · cases h
  · obtain ⟨settled, hsettled, -⟩ := exists_of_bind_eq_ok h
    exact ⟨settled, hsettled⟩
  all_goals
    split at h
    · cases h
    · obtain ⟨settled, hsettled, -⟩ := exists_of_bind_eq_ok h
      exact ⟨settled, hsettled⟩

theorem exists_settle_of_takeShort {letter : Char} {rest : List Char}
    (h : r.takeShort letter rest = .ok r') : ∃ settled, r.settle = .ok settled := by
  unfold takeShort at h
  split at h
  · obtain ⟨settled, hsettled, -⟩ := exists_of_bind_eq_ok h
    exact ⟨settled, hsettled⟩
  · obtain ⟨settled, hsettled, -⟩ := exists_of_bind_eq_ok h
    exact ⟨settled, hsettled⟩
  · cases h

/-- What one word makes of a reading that waits for a value: the value has been given, or else the
reading still waits for it behind the separator. -/
theorem step_of_awaits (h : step sub r word = .ok r') (awaiting : r.awaits = some s)
    (options : r.literal = false) :
    (s = .engineArg ∨ IsName word) ∧ Extends r [.setting s word] r' ∧ r'.awaits = none ∧
        r'.literal = false ∨
      r'.awaits = some s ∧ r'.literal = true := by
  have unsettled (settled : Reading) : r.settle ≠ .ok settled := by
    intro h
    rw [(extends_of_settle h).1] at awaiting
    cases awaiting
  have pending : r.pending = some (s, none) := by
    unfold awaits at awaiting
    split at awaiting <;> cases awaiting
    assumption
  have given : Extends r [.setting s word] { r with pending := some (s, some word) } := by
    refine ⟨by simp, by simp, ?_⟩
    cases s <;> simp [programs, values_setting, pending]
  unfold step at h
  rw [if_neg (by simp [options])] at h
  split at h
  · rename_i same
    rw [pending] at same
    obtain rfl : s = .engineArg := congrArg Prod.fst (Option.some.inj same)
    obtain rfl := Except.ok.inj h
    exact .inl ⟨.inl rfl, given, rfl, options⟩
  · split at h
    · obtain rfl := Except.ok.inj h
      exact .inr ⟨awaiting, rfl⟩
    · obtain ⟨settled, hsettled⟩ := exists_settle_of_takeLong h
      exact absurd hsettled (unsettled settled)
    · obtain ⟨settled, hsettled⟩ := exists_settle_of_takeShort h
      exact absurd hsettled (unsettled settled)
    · rename_i shape
      rw [takePlain, pending] at h
      obtain rfl := Except.ok.inj h
      exact .inl ⟨.inr (Shape.isName_of_plain shape), given, rfl, options⟩

/-- What the words mean to a reading that may be in the middle of an item, or past all options. -/
def TakenFrom (sub : Subcommand) (r : Reading) (words : List String) (items : List Item) : Prop :=
  if r.literal then items = words.map .name
  else match r.awaits with
    | none => Taken sub words items
    | some s => ∃ value words' items', words = value :: words' ∧
        items = .setting s value :: items' ∧ (s = .engineArg ∨ IsName value) ∧
        Taken sub words' items'

section TakenFrom

variable {words : List String} {items : List Item}

theorem takenFrom_of_literal (literal : r.literal = true) :
    TakenFrom sub r words items ↔ items = words.map .name := by
  rw [TakenFrom, if_pos literal]

theorem takenFrom_of_ready (options : r.literal = false) (ready : r.awaits = none) :
    TakenFrom sub r words items ↔ Taken sub words items := by
  rw [TakenFrom, options, if_neg Bool.false_ne_true, ready]

theorem takenFrom_of_awaits (options : r.literal = false) (awaiting : r.awaits = some s) :
    TakenFrom sub r words items ↔ ∃ value words' items', words = value :: words' ∧
      items = .setting s value :: items' ∧ (s = .engineArg ∨ IsName value) ∧
        Taken sub words' items' := by
  rw [TakenFrom, options, if_neg Bool.false_ne_true, awaiting]

/-- One word more: with what it adds to a reading, the words are taken for what it adds in front. -/
theorem takenFrom_step (h : step sub r word = .ok r')
    (live : r'.literal = true → r'.awaits = none) (taken : TakenFrom sub r' words items) :
    ∃ first, TakenFrom sub r (word :: words) (first ++ items) ∧ Extends r first r' := by
  cases literal : r.literal with
  | true =>
      rw [step, if_pos literal] at h
      obtain ⟨-, extends', -, literal'⟩ := extends_of_takeName h
      rw [takenFrom_of_literal (literal'.trans literal)] at taken
      refine ⟨_, (takenFrom_of_literal literal).mpr ?_, extends'⟩
      rw [taken]
      rfl
  | false =>
      cases awaiting : r.awaits with
      | none =>
          cases step_cases h awaiting literal with
          | item spelled extends' ready options =>
              rw [takenFrom_of_ready options ready] at taken
              exact ⟨_, (takenFrom_of_ready literal awaiting).mpr (.word spelled taken), extends'⟩
          | opens opened extends' awaiting' options =>
              rw [takenFrom_of_awaits options awaiting'] at taken
              obtain ⟨value, words', items', rfl, rfl, hvalue, taken⟩ := taken
              exact ⟨_, (takenFrom_of_ready literal awaiting).mpr (.apart opened hvalue taken),
                extends'⟩
          | separator same extends' _ literal' =>
              rw [takenFrom_of_literal literal'] at taken
              subst same taken
              exact ⟨_, (takenFrom_of_ready literal awaiting).mpr (.literal words), extends'⟩
      | some s =>
          rcases step_of_awaits h awaiting literal with
            ⟨hvalue, extends', ready, options⟩ | ⟨awaiting', literal'⟩
          · rw [takenFrom_of_ready options ready] at taken
            exact ⟨_, (takenFrom_of_awaits literal awaiting).mpr
              ⟨word, words, items, rfl, rfl, hvalue, taken⟩, extends'⟩
          · rw [live literal'] at awaiting'
            cases awaiting'

/-- A value that is missing at the separator is missing at the end. -/
theorem awaits_of_literal (h : words.foldlM (step sub) r = .ok r')
    (settled : r'.settle = .ok r'') (literal : r.literal = true) : r.awaits = none := by
  cases words with
  | nil =>
      obtain rfl := Except.ok.inj h
      exact (extends_of_settle settled).1
  | cons word words =>
      obtain ⟨r₁, h₁, -⟩ := exists_of_bind_eq_ok h
      rw [step, if_pos literal] at h₁
      exact (extends_of_takeName h₁).1

/-- A reading of words that can be finished has taken them for items, and holds these. -/
theorem exists_takenFrom (h : words.foldlM (step sub) r = .ok r')
    (settled : r'.settle = .ok r'') :
    ∃ items, TakenFrom sub r words items ∧ Extends r items r' := by
  -- The words are taken from the last one on, since what a reading waits for comes behind it.
  induction words generalizing r with
  | nil =>
      obtain rfl := Except.ok.inj h
      refine ⟨[], ?_, .refl r⟩
      cases literal : r.literal with
      | true => exact (takenFrom_of_literal literal).mpr rfl
      | false => exact (takenFrom_of_ready literal (extends_of_settle settled).1).mpr .nil
  | cons word words ih =>
      obtain ⟨r₁, h₁, h⟩ := exists_of_bind_eq_ok h
      obtain ⟨items, taken, rest⟩ := ih h
      obtain ⟨first, whole, extends'⟩ := takenFrom_step h₁ (awaits_of_literal h settled) taken
      exact ⟨first ++ items, whole, extends'.trans rest⟩

end TakenFrom

end Reading

/-! ### What is asked -/

open ProcessLogic.Cli.Reading in
/-- The words of a command that is read, with the two names and the file among them. -/
theorem exists_taken_of_ofWords {sub : Subcommand} {words : List String} {command : Command}
    (h : Command.ofWords sub words = .ok command) :
    ∃ items first second, Taken sub words items ∧ Item.names items = [first, second] ∧
      Item.values .program items = [command.program] ∧
      command.question = question sub first second (items.contains .strict) := by
  obtain ⟨r, hr, h⟩ := exists_of_bind_eq_ok h
  obtain ⟨settled, hsettled, h⟩ := exists_of_bind_eq_ok h
  obtain ⟨items, taken, extends₁⟩ := exists_takenFrom hr hsettled
  obtain ⟨-, extends₂, idle, -⟩ := extends_of_settle hsettled
  have whole := extends₁.trans extends₂
  rw [List.append_nil] at whole
  split at h
  · rename_i first second program names given
    obtain rfl := Except.ok.inj h
    refine ⟨items, first, second, (takenFrom_of_ready rfl rfl).mp taken, ?_, ?_, ?_⟩
    · rw [← names, whole.names]
      rfl
    · have programs := whole.programs
      rw [Reading.programs, given, idle] at programs
      exact programs.symm
    · rw [whole.strict]
      rfl
  · cases h

end ProcessLogic.Cli
