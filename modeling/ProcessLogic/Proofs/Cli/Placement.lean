import ProcessLogic.Proofs.Cli.Items
import ProcessLogic.Proofs.Engine.Settings
import ProcessLogic.Cli.Session

/-!
# Where options may stand

The arguments of an engine are taken from the command line as they are, whatever they look like.
Each of them stands behind an `--engine-arg` of its own, and these pairs may stand anywhere in
front of the separator where they do not tear an option from its value (`Laced`).  All other
options may change their places there (`Reordered`).

Both leave alone what the items of a command line say, up to the order of what may be given once
and up to the arguments of the engine (`Alike`).
-/

namespace ProcessLogic.Cli

variable {sub : Subcommand} {args words words' laced : List String} {items items' : List Item}
  {command : Command}

/-! ### Placements -/

/-- Arguments are laced into words, each behind an `--engine-arg`: in front of the separator, and
not into the words of a part. -/
inductive Laced (sub : Subcommand) : List String → List String → List String → Prop
  | rest {words : List String} {items : List Item} (taken : Taken sub words items) :
      Laced sub [] words words
  | part {args front words laced : List String} {item : Item} (part : Part sub front item)
      (rest : Laced sub args words laced) : Laced sub args (front ++ words) (front ++ laced)
  | pair (arg : String) {args words laced : List String} (rest : Laced sub args words laced) :
      Laced sub (arg :: args) words ("--engine-arg" :: arg :: laced)

/-- Whether an item is an option, but no argument of the engine. -/
def Item.isOther : Item → Bool
  | .name _ => false
  | .strict => true
  | .setting s _ => s ≠ .engineArg

/-- Parts of a command line change their places, but only other options move past each other and
past anything else. -/
inductive Reordered (sub : Subcommand) : List String → List String → Prop
  | intro {parts parts' : List (List String × Item)} {words : List String} {items : List Item}
      (spelled : ∀ part ∈ parts, Part sub part.1 part.2) (moved : parts.Perm parts')
      (fixed : (parts.filter fun part => !part.2.isOther) =
        parts'.filter fun part => !part.2.isOther)
      (taken : Taken sub words items) :
      Reordered sub (parts.flatMap Prod.fst ++ words) (parts'.flatMap Prod.fst ++ words)

/-! ### What the items say -/

/-- Two rows of items say the same, up to the order of what may be given once and up to the
arguments of the engine. -/
structure Alike (items items' : List Item) : Prop where
  names : Item.names items = Item.names items'
  strict : items.count .strict = items'.count .strict
  values {s : Setting} (other : s ≠ .engineArg) :
    (Item.values s items).Perm (Item.values s items')

namespace Alike

theorem refl (items : List Item) : Alike items items := ⟨rfl, rfl, fun _ => .refl _⟩

theorem append {front front' : List Item} (first : Alike front front')
    (rest : Alike items items') : Alike (front ++ items) (front' ++ items') where
  names := by rw [Item.names_append, Item.names_append, first.names, rest.names]
  strict := by rw [List.count_append, List.count_append, first.strict, rest.strict]
  values other := by
    rw [Item.values_append, Item.values_append]
    exact (first.values other).append (rest.values other)

theorem engineArg (arg : String) : Alike [] [.setting .engineArg arg] where
  names := rfl
  strict := rfl
  values other := by
    rw [Item.values_setting, if_neg other.symm]
    exact .nil

end Alike

theorem Item.names_filter_isOther (items : List Item) :
    names (items.filter fun item => !item.isOther) = names items := by
  rw [names, List.filterMap_filter]
  refine List.filterMap_congr fun item _ => ?_
  cases item with
  | name word => rfl
  | strict => rfl
  | setting s value => exact ite_self none

theorem Item.values_filter_isOther (items : List Item) :
    values .engineArg (items.filter fun item => !item.isOther) = values .engineArg items := by
  rw [values, List.filterMap_filter]
  refine List.filterMap_congr fun item _ => ?_
  cases item with
  | name word => rfl
  | strict => rfl
  | setting s value => cases s <;> rfl

/-- Items that have changed their places say the same. -/
theorem alike_of_perm (moved : items.Perm items')
    (fixed : (items.filter fun item => !item.isOther) = items'.filter fun item => !item.isOther) :
    Alike items items' ∧ Item.values .engineArg items = Item.values .engineArg items' := by
  refine ⟨⟨?_, moved.count_eq _, fun _ => moved.filterMap _⟩, ?_⟩
  · rw [← Item.names_filter_isOther, fixed, Item.names_filter_isOther]
  · rw [← Item.values_filter_isOther, fixed, Item.values_filter_isOther]

/-! ### What the words say -/

theorem taken_of_parts {parts : List (List String × Item)}
    (spelled : ∀ part ∈ parts, Part sub part.1 part.2) (taken : Taken sub words items) :
    Taken sub (parts.flatMap Prod.fst ++ words) (parts.map Prod.snd ++ items) := by
  induction parts with
  | nil => exact taken
  | cons part parts ih =>
      rw [List.flatMap_cons, List.append_assoc]
      exact (spelled part List.mem_cons_self).taken
        (ih fun part member => spelled part (List.mem_cons_of_mem _ member))

/-- Words whose options have changed their places say the same. -/
theorem Reordered.exists_alike (h : Reordered sub words words') :
    ∃ items items', Taken sub words items ∧ Taken sub words' items' ∧ Alike items items' ∧
      Item.values .engineArg items = Item.values .engineArg items' := by
  obtain ⟨spelled, moved, fixed, taken⟩ := h
  have fixed := congrArg (List.map Prod.snd) fixed
  obtain ⟨alike, same⟩ := alike_of_perm (moved.map Prod.snd) <| by
    rw [List.filter_map, List.filter_map]
    exact fixed
  refine ⟨_, _, taken_of_parts spelled taken, taken_of_parts (fun part member => ?_) taken,
    alike.append (.refl _), ?_⟩
  · exact spelled part (moved.mem_iff.mpr member)
  · rw [Item.values_append, Item.values_append, same]

/-- Laced words say the same, and besides them the arguments that are laced into them. -/
theorem Laced.exists_alike (h : Laced sub args words laced) :
    ∃ items items', Taken sub words items ∧ Taken sub laced items' ∧ Alike items items' ∧
      (Item.values .engineArg items = [] → Item.values .engineArg items' = args) := by
  induction h with
  | rest taken => exact ⟨_, _, taken, taken, .refl _, id⟩
  | @part _ _ _ _ item part _ ih =>
      obtain ⟨items, items', taken, taken', alike, given⟩ := ih
      refine ⟨_, _, part.taken taken, part.taken taken', .append (.refl [item]) alike, ?_⟩
      intro bare
      rw [← List.singleton_append, Item.values_append] at bare ⊢
      obtain ⟨none, bare⟩ := List.append_eq_nil_iff.mp bare
      rw [none, List.nil_append]
      exact given bare
  | pair arg _ ih =>
      obtain ⟨items, items', taken, taken', alike, given⟩ := ih
      refine ⟨items, .setting .engineArg arg :: items', taken,
        .apart (.long .engineArg) (.inl rfl) taken', .append (.engineArg arg) alike, ?_⟩
      intro bare
      rw [← given bare]
      rfl

/-! ### What is read -/

/-- A command with other arguments of the engine. -/
def Command.withArgs (command : Command) (args : List String) : Command :=
  { command with overrides := { command.overrides with args } }

namespace Reading

variable {q : Reading}

theorem Holds.of_alike (h : Holds items q) (alike : Alike items items') :
    Holds items' { q with engineArgs := Item.values .engineArg items' } where
  names := alike.names.symm.trans h.names
  few := h.few
  strict := alike.strict.symm.trans h.strict
  given s := by
    cases s with
    | engineArg => rfl
    | program => exact (h.given .program).perm (alike.values (by decide)) (by decide)
    | engine => exact (h.given .engine).perm (alike.values (by decide)) (by decide)
    | timeout => exact (h.given .timeout).perm (alike.values (by decide)) (by decide)
    | format => exact (h.given .format).perm (alike.values (by decide)) (by decide)
  idle := h.idle
  options := h.options

theorem finish_withArgs (idle : q.pending = none) (h : q.finish sub = .ok command) :
    command.overrides.args = q.engineArgs ∧
      ∀ args, finish sub { q with engineArgs := args } = .ok (command.withArgs args) := by
  obtain ⟨first, second, program, names, given, rfl⟩ := (finish_eq_ok_iff idle).mp h
  refine ⟨rfl, fun args => (finish_eq_ok_iff (q := { q with engineArgs := args }) idle).mpr ?_⟩
  exact ⟨first, second, program, names, given, rfl⟩

end Reading

namespace Command

/-- Words that say the same are read as the same command, up to the arguments of the engine, and
these are what they are said to be. -/
theorem ofWords_of_alike (h : ofWords sub words = .ok command) (taken : Taken sub words items)
    (taken' : Taken sub words' items') (alike : Alike items items') :
    command.overrides.args = Item.values .engineArg items ∧
      ofWords sub words' = .ok (command.withArgs (Item.values .engineArg items')) := by
  obtain ⟨q, holds, h⟩ := (ofWords_eq_ok_iff_of_taken taken).mp h
  obtain ⟨given, finished⟩ := Reading.finish_withArgs holds.idle h
  refine ⟨given.trans (holds.given .engineArg).symm, ?_⟩
  exact (ofWords_eq_ok_iff_of_taken taken').mpr ⟨_, holds.of_alike alike, finished _⟩

theorem ofArguments_name (sub : Subcommand) (words : List String) :
    ofArguments (sub.name :: words) = ofWords sub words := by
  cases sub <;> rfl

/-- To move options is to ask for the same. -/
theorem ofArguments_of_reordered (h : ofArguments (sub.name :: words) = .ok command)
    (moved : Reordered sub words words') :
    ofArguments (sub.name :: words') = .ok command := by
  rw [ofArguments_name] at h ⊢
  obtain ⟨items, items', taken, taken', alike, same⟩ := moved.exists_alike
  obtain ⟨given, read⟩ := ofWords_of_alike h taken taken' alike
  rw [read, ← same, ← given]
  rfl

theorem ofArguments_of_laced (h : ofArguments (sub.name :: words) = .ok command)
    (bare : command.overrides.args = []) (laces : Laced sub args words laced) :
    ofArguments (sub.name :: laced) = .ok (command.withArgs args) := by
  rw [ofArguments_name] at h ⊢
  obtain ⟨items, items', taken, taken', alike, given⟩ := laces.exists_alike
  obtain ⟨none, read⟩ := ofWords_of_alike h taken taken' alike
  rw [read, given (none.symm.trans bare)]

end Command

/-- **Engine arguments are passed on verbatim.**  Take any command line that is read and gives the
engine no arguments.  With arguments laced into it, whatever they look like, it is read as the same
command with exactly these arguments; if there are any, they are the ones that the engine is run
with, whatever the environment says; and however other options are moved about, nothing changes. -/
theorem engineArgs_verbatim (parsed : Command.ofArguments (sub.name :: words) = .ok command)
    (bare : command.overrides.args = []) (laces : Laced sub args words laced) :
    Command.ofArguments (sub.name :: laced) = .ok (command.withArgs args) ∧
      (args ≠ [] → ∀ s : Surroundings, (s.config (command.withArgs args).overrides).args = args) ∧
      ∀ words', Reordered sub laced words' →
        Command.ofArguments (sub.name :: words') = .ok (command.withArgs args) := by
  have read := Command.ofArguments_of_laced parsed bare laces
  refine ⟨read, fun given s => ?_, fun words' moved => ?_⟩
  · exact Config.args_override_of_ne_nil _ given
  · exact Command.ofArguments_of_reordered read moved

/-- Arguments that look like the separator, like help and like other options, around an option with
its value and in front of a separator; then the options are turned around. -/
theorem engineArgs_verbatim_options :
    let words := ["--strict", "-p", "spec.ccs", "--engine=tool", "P", "--", "-phi"]
    let laced := ["--engine-arg", "", "--strict", "--engine-arg", "--", "-p", "spec.ccs",
      "--engine-arg", "--help", "--engine=tool", "P", "--engine-arg", "-p",
      "--engine-arg", "--timeout=3", "--", "-phi"]
    let moved := ["--engine=tool", "--engine-arg", "", "--engine-arg", "--",
      "--engine-arg", "--help", "P", "--engine-arg", "-p", "-p", "spec.ccs",
      "--engine-arg", "--timeout=3", "--strict", "--", "-phi"]
    let args := ["", "--", "--help", "-p", "--timeout=3"]
    let command : Command := ⟨.hml "P" "-phi" true, "spec.ccs", { command := some "tool" }, .text⟩
    Command.ofArguments (Subcommand.hml.name :: words) = .ok command ∧
      Laced .hml args words laced ∧ Reordered .hml laced moved ∧
      Command.ofArguments (Subcommand.hml.name :: laced) = .ok (command.withArgs args) ∧
      Command.ofArguments (Subcommand.hml.name :: moved) = .ok (command.withArgs args) ∧
      ∀ s : Surroundings, (s.config (command.withArgs args).overrides).args = args := by
  intro words laced moved args command
  have parsed : Command.ofArguments (Subcommand.hml.name :: words) = .ok command := by decide
  have name (word : String) (h : word.toList.head? ≠ some '-') : IsName word := by
    intro rest same
    rw [same] at h
    exact absurd rfl h
  have strict : Part .hml ["--strict"] .strict := .word (.strict rfl)
  have program : Part .hml ["-p", "spec.ccs"] (.setting .program "spec.ccs") :=
    .apart .short (.inr (name _ (by decide)))
  have engine : Part .hml ["--engine=tool"] (.setting .engine "tool") :=
    .word (.attached (.attached .engine "tool"))
  have process : Part .hml ["P"] (.name "P") := .word (.name (name _ (by decide)))
  have rest : Taken .hml ["--", "-phi"] [.name "-phi"] := .literal ["-phi"]
  have laces : Laced .hml args words laced :=
    .pair "" <| .part strict <| .pair "--" <| .part program <| .pair "--help" <| .part engine <|
      .part process <| .pair "-p" <| .pair "--timeout=3" <| .rest rest
  have pair (arg : String) : Part .hml ["--engine-arg", arg] (.setting .engineArg arg) :=
    .apart (.long .engineArg) (.inl rfl)
  have moves : Reordered .hml laced moved := by
    let pairOf (arg : String) := (["--engine-arg", arg], Item.setting .engineArg arg)
    let parts := [pairOf "", (["--strict"], .strict), pairOf "--",
      (["-p", "spec.ccs"], .setting .program "spec.ccs"), pairOf "--help",
      (["--engine=tool"], .setting .engine "tool"), (["P"], .name "P"), pairOf "-p",
      pairOf "--timeout=3"]
    let parts' := [(["--engine=tool"], .setting .engine "tool"), pairOf "", pairOf "--",
      pairOf "--help", (["P"], .name "P"), pairOf "-p",
      (["-p", "spec.ccs"], .setting .program "spec.ccs"), pairOf "--timeout=3",
      (["--strict"], .strict)]
    have spelled : ∀ part ∈ parts, Part .hml part.1 part.2 := by
      simp only [parts, List.forall_mem_cons]
      exact ⟨pair _, strict, pair _, program, pair _, engine, process, pair _, pair _, nofun⟩
    have moved : parts.Perm parts' := by decide
    exact .intro spelled moved (by decide) rest
  obtain ⟨read, run, still⟩ := engineArgs_verbatim parsed rfl laces
  exact ⟨parsed, laces, moves, read, still moved moves, run (by decide)⟩

end ProcessLogic.Cli
