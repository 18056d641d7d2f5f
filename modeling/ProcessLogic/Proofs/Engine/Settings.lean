import ProcessLogic.Engine.Config
import ProcessLogic.Proofs.Text.Digits
import ProcessLogic.Proofs.Text.Words

/-!
# Where settings come from

The command line is asked first, then the environment, and last there is a default.  A variable that
is blank provides nothing, and neither does a time limit that is no number.  The settings are found
one by one, each from one variable, with a single exception: a command on the command line leaves no
arguments of the environment, since those were meant for another command.

`Config.Sourced` and `Config.ArgsFrom` list the sources of a setting, and `Config.override_sources`
says that a configuration has its settings from there.
-/

namespace ProcessLogic.Config

/-! ### Sources -/

/-- A variable is set, and not blank. -/
def Provides (lookup : String → Option String) (name value : String) : Prop :=
  lookup name = some value ∧ ∃ c ∈ value.toList, isBlank c = false

/-- A variable is set to a number of one word, with blanks around it. -/
def ProvidesNumber (lookup : String → Option String) (name : String) (n : UInt64) : Prop :=
  ∃ value, lookup name = some value ∧ Decimal.Padded n value.toList

/-- The sources of a setting: the command line, what the environment provides, and a default. -/
inductive Sourced {α : Type} (line : Option α) (Provided : α → Prop) (default : α) : α → Prop
  | line {v : α} (given : line = some v) : Sourced line Provided default v
  | environment {v : α} (absent : line = none) (provided : Provided v) :
      Sourced line Provided default v
  | default (absent : line = none) (silent : ∀ v, ¬Provided v) :
      Sourced line Provided default default

/-- The sources of the arguments.  A blank variable has no words. -/
inductive ArgsFrom (lookup : String → Option String) (o : Overrides) : List String → Prop
  | line (given : o.args ≠ []) : ArgsFrom lookup o o.args
  | dropped {command : String} (absent : o.args = []) (given : o.command = some command) :
      ArgsFrom lookup o []
  | environment {args : List String} {value : String} (absent : o.args = [])
      (kept : o.command = none) (set : lookup argsVariable = some value)
      (spaced : Spaced value.toList (args.map String.toList)) : ArgsFrom lookup o args
  | default (absent : o.args = []) (kept : o.command = none) (unset : lookup argsVariable = none) :
      ArgsFrom lookup o []

variable {lookup other : String → Option String} {o : Overrides} {name value : String}

/-- A setting is what the command line gives, or else what is found, or else the default. -/
theorem sourced_iff {α : Type} {line found : Option α} {Provided : α → Prop}
    (h : ∀ v, found = some v ↔ Provided v) {default v : α} :
    Sourced line Provided default v ↔ line.getD (found.getD default) = v := by
  cases line with
  | some given =>
      constructor
      · rintro (same | ⟨absent, -⟩ | ⟨absent, -⟩)
        · exact Option.some.inj same
        all_goals cases absent
      · rintro rfl
        exact .line rfl
  | none =>
      rw [Option.getD_none]
      cases hf : found with
      | some provided =>
          constructor
          · rintro (given | ⟨-, hv⟩ | ⟨-, silent⟩)
            · cases given
            · exact Option.some.inj (hf.symm.trans ((h v).mpr hv))
            · exact absurd ((h provided).mp hf) (silent provided)
          · rintro rfl
            exact .environment rfl ((h _).mp hf)
      | none =>
          have silent : ∀ w, ¬Provided w := fun w hw => by
            rw [(h w).mpr hw] at hf
            cases hf
          constructor
          · rintro (given | ⟨-, hv⟩ | -)
            · cases given
            · exact absurd hv (silent v)
            · rfl
          · rintro rfl
            exact .default rfl silent

/-! ### The environment -/

theorem nonBlank_of_visible (h : ∃ c ∈ value.toList, isBlank c = false) :
    nonBlank value = some value := by
  obtain ⟨c, hc, visible⟩ := h
  rw [nonBlank, if_neg]
  intro blank
  rw [List.all_eq_true.mp blank c hc] at visible
  cases visible

theorem nonBlank_of_blank (h : ∀ c ∈ value.toList, isBlank c = true) : nonBlank value = none := by
  rw [nonBlank, if_pos (List.all_eq_true.mpr h)]

theorem blank_or_visible (value : String) :
    (∀ c ∈ value.toList, isBlank c = true) ∨ ∃ c ∈ value.toList, isBlank c = false := by
  by_cases h : ∀ c ∈ value.toList, isBlank c = true
  · exact .inl h
  · exact .inr (by simpa using h)

theorem bind_nonBlank_eq_some_iff :
    (lookup name).bind nonBlank = some value ↔ Provides lookup name value := by
  rw [Option.bind_eq_some_iff, Provides]
  constructor
  · rintro ⟨found, set, same⟩
    rcases blank_or_visible found with blank | visible
    · rw [nonBlank_of_blank blank] at same
      cases same
    · rw [nonBlank_of_visible visible] at same
      obtain rfl := Option.some.inj same
      exact ⟨set, visible⟩
  · rintro ⟨set, visible⟩
    exact ⟨value, set, nonBlank_of_visible visible⟩

theorem bind_word?_eq_some_iff {n : UInt64} :
    ((lookup name).bind fun value => Decimal.word? (trim value.toList)) = some n ↔
      ProvidesNumber lookup name n := by
  rw [Option.bind_eq_some_iff, ProvidesNumber]
  simp only [Decimal.word?_trim_eq_some_iff]

/-- It makes no difference that a blank variable counts as unset, since it has no words. -/
theorem args_ofLookup (lookup : String → Option String) :
    (ofLookup lookup).args =
      (lookup argsVariable).elim [] fun value => (words value.toList).map String.ofList := by
  rw [ofLookup]
  cases lookup argsVariable with
  | none => rfl
  | some value =>
      rw [Option.bind_some, Option.elim_some]
      rcases blank_or_visible value with blank | visible
      · rw [nonBlank_of_blank blank, words_of_forall_blank blank]
        rfl
      · rw [nonBlank_of_visible visible]
        rfl

/-- Nor does it here, since a blank variable is no number. -/
theorem timeoutSecs_ofLookup (lookup : String → Option String) :
    (ofLookup lookup).timeoutSecs =
      ((lookup timeoutVariable).bind fun value => Decimal.word? (trim value.toList)).getD 0 := by
  rw [ofLookup]
  cases lookup timeoutVariable with
  | none => rfl
  | some value =>
      rw [Option.bind_some, Option.bind_some]
      rcases blank_or_visible value with blank | visible
      · rw [nonBlank_of_blank blank, trim_of_forall_blank blank]
        rfl
      · rw [nonBlank_of_visible visible]
        rfl

/-! ### The command line and the environment -/

theorem command_override_ofLookup (lookup : String → Option String) (o : Overrides) :
    ((ofLookup lookup).override o).command =
      o.command.getD (((lookup commandVariable).bind nonBlank).getD "ccs-verifier") := rfl

theorem timeoutSecs_override_ofLookup (lookup : String → Option String) (o : Overrides) :
    ((ofLookup lookup).override o).timeoutSecs =
      o.timeoutSecs.getD (((lookup timeoutVariable).bind fun value =>
        Decimal.word? (trim value.toList)).getD 0) := by
  rw [← timeoutSecs_ofLookup]
  rfl

theorem args_override (c : Config) (o : Overrides) :
    (c.override o).args =
      if o.args.isEmpty then (if o.command.isSome then [] else c.args) else o.args := rfl

theorem args_override_of_ne_nil (c : Config) (h : o.args ≠ []) : (c.override o).args = o.args := by
  rw [args_override, if_neg (by simpa using h)]

theorem args_override_of_command (c : Config) {command : String} (absent : o.args = [])
    (given : o.command = some command) : (c.override o).args = [] := by
  rw [args_override, absent, given]
  rfl

theorem args_override_of_absent (c : Config) (absent : o.args = []) (kept : o.command = none) :
    (c.override o).args = c.args := by
  rw [args_override, absent, kept]
  rfl

theorem argsFrom_iff {args : List String} :
    ArgsFrom lookup o args ↔ ((ofLookup lookup).override o).args = args := by
  constructor
  · rintro (given | ⟨absent, given⟩ | ⟨absent, kept, set, spaced⟩ | ⟨absent, kept, unset⟩)
    · exact args_override_of_ne_nil _ given
    · exact args_override_of_command _ absent given
    · rw [args_override_of_absent _ absent kept, args_ofLookup, set, Option.elim_some,
        spaced.words_eq, List.map_map]
      simp
    · rw [args_override_of_absent _ absent kept, args_ofLookup, unset, Option.elim_none]
  · rintro rfl
    by_cases absent : o.args = []
    · cases kept : o.command with
      | some command =>
          rw [args_override_of_command _ absent kept]
          exact .dropped absent kept
      | none =>
          rw [args_override_of_absent _ absent kept, args_ofLookup]
          cases set : lookup argsVariable with
          | none => exact .default absent kept set
          | some value =>
              refine .environment absent kept set (spaced_iff.mpr ?_)
              simp
    · rw [args_override_of_ne_nil _ absent]
      exact .line absent

/-- Overrides that have been applied make no difference any more. -/
theorem override_override (c : Config) (o : Overrides) :
    (c.override o).override o = c.override o := by
  obtain ⟨command, args, timeoutSecs⟩ := o
  cases command <;> cases args <;> cases timeoutSecs <;> rfl

/-- **The effective configuration.**  With overrides applied to what the environment says, a
configuration has each setting from its source, and no other configuration has.

If the overrides have a command, then neither the command nor the arguments are up to the
environment.  Each setting is up to its own variable alone, so whatever is wrong with the others
makes no difference to it.  Applying the same overrides again changes nothing. -/
theorem override_sources (lookup : String → Option String) (o : Overrides) :
    (∀ c : Config, (ofLookup lookup).override o = c ↔
      Sourced o.command (Provides lookup commandVariable) "ccs-verifier" c.command ∧
        ArgsFrom lookup o c.args ∧
        Sourced o.timeoutSecs (ProvidesNumber lookup timeoutVariable) 0 c.timeoutSecs) ∧
    (∀ other : String → Option String, o.command ≠ none →
      ((ofLookup other).override o).command = ((ofLookup lookup).override o).command ∧
        ((ofLookup other).override o).args = ((ofLookup lookup).override o).args) ∧
    (∀ other : String → Option String,
      (other commandVariable = lookup commandVariable →
        ((ofLookup other).override o).command = ((ofLookup lookup).override o).command) ∧
      (other argsVariable = lookup argsVariable →
        ((ofLookup other).override o).args = ((ofLookup lookup).override o).args) ∧
      (other timeoutVariable = lookup timeoutVariable →
        ((ofLookup other).override o).timeoutSecs =
          ((ofLookup lookup).override o).timeoutSecs)) ∧
    ∀ c : Config, (c.override o).override o = c.override o := by
  refine ⟨fun c => ?sources, fun other given => ?_, fun other => ⟨fun same => ?_, fun same => ?_,
    fun same => ?_⟩, fun c => c.override_override o⟩
  case sources =>
    rw [sourced_iff fun _ => bind_nonBlank_eq_some_iff, ← command_override_ofLookup, argsFrom_iff,
      sourced_iff fun _ => bind_word?_eq_some_iff, ← timeoutSecs_override_ofLookup]
    constructor
    · rintro rfl
      exact ⟨rfl, rfl, rfl⟩
    · obtain ⟨command, args, timeoutSecs⟩ := c
      rintro ⟨rfl, rfl, rfl⟩
      rfl
  · obtain ⟨command, given⟩ := Option.ne_none_iff_exists'.mp given
    constructor
    · rw [command_override_ofLookup, command_override_ofLookup, given, Option.getD_some,
        Option.getD_some]
    · by_cases absent : o.args = []
      · rw [args_override_of_command _ absent given, args_override_of_command _ absent given]
      · rw [args_override_of_ne_nil _ absent, args_override_of_ne_nil _ absent]
  · rw [command_override_ofLookup, command_override_ofLookup, same]
  · rw [args_override, args_override, args_ofLookup, args_ofLookup, same]
  · rw [timeoutSecs_override_ofLookup, timeoutSecs_override_ofLookup, same]

/-- A blank command, arguments with several blanks between them and a padded time limit are found
side by side; a new command leaves the time limit only. -/
theorem override_sources_padded :
    let lookup := fun name =>
      if name = commandVariable then some " \t"
      else if name = argsVariable then some "--stdio  --quiet\n"
      else if name = timeoutVariable then some " +007" else none
    (ofLookup lookup).override {} = ⟨"ccs-verifier", ["--stdio", "--quiet"], 7⟩ ∧
      (some "sh" ≠ none ∧ ((ofLookup fun _ => none).override { command := some "sh" }).args =
        ((ofLookup lookup).override { command := some "sh" }).args) ∧
      (ofLookup lookup).override { command := some "sh" } = ⟨"sh", [], 7⟩ := by
  intro lookup
  have seven : ProvidesNumber lookup timeoutVariable 7 := bind_word?_eq_some_iff.mp rfl
  have silent : ∀ value, ¬Provides lookup commandVariable value := by
    intro value provided
    cases bind_nonBlank_eq_some_iff.mpr provided
  refine ⟨((override_sources lookup {}).1 _).mpr ⟨.default rfl silent,
    .environment rfl rfl rfl (spaced_iff.mpr rfl), .environment rfl seven⟩, ⟨by simp, ?_⟩, ?_⟩
  · exact ((override_sources lookup { command := some "sh" }).2.1 _ (by simp)).2
  · exact ((override_sources lookup { command := some "sh" }).1 _).mpr
      ⟨.line rfl, .dropped rfl rfl, .environment rfl seven⟩

end ProcessLogic.Config
