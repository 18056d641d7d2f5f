import ProcessLogic.Cli.Command
import ProcessLogic.Text.Decimal

/-!
# Reading a command line

The first word names a subcommand; the others are read from left to right, one at a time.  A word
is an option, the value of an option, or one of the two names that every subcommand takes.

## Values

The value of an option is attached to it (`--engine=x`, `-px`, `-p=x`) or is the next word.  In
the second case the option stays *pending*: it is settled once the next word has been recognized
as something else, or at the end, and only then is a missing or unusable value complained about.
Words that look like options are no values, except behind `--engine-arg`, which takes the next
word whatever it is.

## Two faults at once

A word that is recognized as wrong by itself (an unknown option, a flag with a value, a third
name) is reported before anything that is pending.
-/

namespace ProcessLogic.Cli

inductive Subcommand where
  | strong
  | weak
  | hml
deriving DecidableEq, Repr

def Subcommand.ofName? : String → Option Subcommand
  | "strong" => some .strong
  | "weak" => some .weak
  | "hml" => some .hml
  | _ => none

/-- The options that take a value. -/
inductive Setting where
  | program
  | engine
  | engineArg
  | timeout
  | format
deriving DecidableEq, Repr

/-- What a long name stands for. -/
inductive Flag where
  | setting (s : Setting)
  | strict
  | help
deriving DecidableEq, Repr

/-- The flag of a long name.  Only `hml` can be strict. -/
def Flag.ofName? (sub : Subcommand) : String → Option Flag
  | "program" => some (.setting .program)
  | "engine" => some (.setting .engine)
  | "engine-arg" => some (.setting .engineArg)
  | "timeout" => some (.setting .timeout)
  | "format" => some (.setting .format)
  | "strict" => if sub = .hml then some .strict else none
  | "help" => some .help
  | _ => none

/-! ### Words -/

/-- What a word looks like. -/
inductive Shape where
  /-- Two hyphens: all further words are names. -/
  | separator
  /-- Two hyphens and a name, perhaps with an equals sign and a value. -/
  | long (name : String) (value : Option String)
  /-- A hyphen and a letter, with what follows them. -/
  | short (letter : Char) (rest : List Char)
  /-- Anything else; a lone hyphen too. -/
  | plain
deriving DecidableEq, Repr

/-- The part of a long option behind its equals sign. -/
def attached : List Char → Option String
  | '=' :: value => some (.ofList value)
  | _ => none

def Shape.ofChars : List Char → Shape
  | ['-', '-'] => .separator
  | '-' :: '-' :: rest =>
      .long (.ofList (rest.takeWhile (· != '='))) (attached (rest.dropWhile (· != '=')))
  | '-' :: letter :: rest => .short letter rest
  | _ => .plain

/-- What a word looks like. -/
def Shape.of (word : String) : Shape := .ofChars word.toList

/-! ### Reading the words of a subcommand -/

/-- What has been read so far. -/
structure Reading where
  names : List String := []
  program : Option String := none
  engine : Option String := none
  engineArgs : List String := []
  timeout : Option UInt64 := none
  format : Option Format := none
  strict : Bool := false
  /-- The setting that waits to be settled, with its value once that has been read. -/
  pending : Option (Setting × Option String) := none
  /-- Whether all further words are names. -/
  literal : Bool := false
deriving DecidableEq, Repr

namespace Reading

/-- A value of a setting that may be given once. -/
def once {α : Type} (old : Option α) (new : Except Refusal α) : Except Refusal (Option α) :=
  if old.isSome then .error .repeated else new.map some

/-- Gives a setting its value. -/
def set (r : Reading) (setting : Setting) (value : String) : Except Refusal Reading :=
  match setting with
  | .program =>
      (once r.program (if value = "" then .error .badValue else .ok value)).map
        fun program => { r with program }
  | .engine => (once r.engine (.ok value)).map fun engine => { r with engine }
  | .engineArg => .ok { r with engineArgs := r.engineArgs ++ [value] }
  | .timeout =>
      (once r.timeout (match Decimal.word? value.toList with
        | some secs => .ok secs
        | none => .error .badNumber)).map fun timeout => { r with timeout }
  | .format =>
      (once r.format (match Format.ofName? value with
        | some format => .ok format
        | none => .error .badValue)).map fun format => { r with format }

/-- Settles what is pending. -/
def settle (r : Reading) : Except Refusal Reading :=
  match r.pending with
  | none => .ok r
  | some (_, none) => .error .badValue
  | some (setting, some value) => set { r with pending := none } setting value

/-- Takes a word as one of the two names. -/
def takeName (r : Reading) (word : String) : Except Refusal Reading :=
  if 2 ≤ r.names.length then
    .error .unknownArgument
  else
    r.settle.map fun r => { r with names := r.names ++ [word] }

/-- Takes a setting whose value is attached or still to come. -/
def takeSetting (r : Reading) (setting : Setting) (value : Option String) :
    Except Refusal Reading := do
  let r ← r.settle
  match value with
  | some value => r.set setting value
  | none => return { r with pending := some (setting, none) }

/-- Takes an option with a long name. -/
def takeLong (r : Reading) (sub : Subcommand) (name : String) (value : Option String) :
    Except Refusal Reading :=
  match Flag.ofName? sub name with
  | none => .error .unknownArgument
  | some (.setting setting) => r.takeSetting setting value
  | some .strict =>
      if value.isSome then .error .superfluousValue else do
        let r ← r.settle
        if r.strict then .error .repeated else return { r with strict := true }
  | some .help =>
      if value.isSome then .error .superfluousValue else do
        let _ ← r.settle
        .error .help

/-- The value attached to a short option: an equals sign in front of it does not count. -/
def shortValue : List Char → Option String
  | [] => none
  | '=' :: value => some (.ofList value)
  | value => some (.ofList value)

/-- Takes an option with a short name. -/
def takeShort (r : Reading) (letter : Char) (rest : List Char) : Except Refusal Reading :=
  match letter with
  | 'p' => r.takeSetting .program (shortValue rest)
  | 'h' => do
      let _ ← r.settle
      .error .help
  | _ => .error .unknownArgument

/-- Takes a word that is no option: the value that is waited for, or a name. -/
def takePlain (r : Reading) (word : String) : Except Refusal Reading :=
  match r.pending with
  | some (setting, none) => .ok { r with pending := some (setting, some word) }
  | _ => r.takeName word

/-- Takes one word. -/
def step (sub : Subcommand) (r : Reading) (word : String) : Except Refusal Reading :=
  if r.literal then
    r.takeName word
  else if r.pending = some (.engineArg, none) then
    .ok { r with pending := some (.engineArg, some word) }
  else
    match Shape.of word with
    | .separator => .ok { r with literal := true }
    | .long name value => r.takeLong sub name value
    | .short letter rest => r.takeShort letter rest
    | .plain => r.takePlain word

/-- The question a subcommand asks about its two names. -/
def question (sub : Subcommand) (first second : String) (strict : Bool) : Question :=
  match sub with
  | .strong => .strongBisimulation first second
  | .weak => .weakBisimulation first second
  | .hml => .hml first second strict

/-- What has been asked for, once all words have been taken. -/
def finish (sub : Subcommand) (r : Reading) : Except Refusal Command := do
  let r ← r.settle
  match r.names, r.program with
  | [first, second], some program =>
      return {
        question := question sub first second r.strict
        program
        overrides := ⟨r.engine, r.engineArgs, r.timeout⟩
        format := r.format.getD .text }
  | _, _ => .error .missingArgument

end Reading

namespace Command

/-- Reads the words behind a subcommand. -/
def ofWords (sub : Subcommand) (words : List String) : Except Refusal Command := do
  (← words.foldlM (Reading.step sub) {}).finish sub

/-- Whether a word names a subcommand, the one for help included. -/
def isSubcommand (word : String) : Bool := word = "help" || (Subcommand.ofName? word).isSome

/-- Refuses a command line that asks for help on what its words name. -/
def helpOn : List String → Refusal
  | [] => .help
  | [word] => if isSubcommand word then .help else .unknownSubcommand
  | _ => .unknownSubcommand

/-- Refuses a command line whose first word names no subcommand that asks a question. -/
def refuse (word : String) (rest : List String) : Refusal :=
  if word = "help" then
    helpOn rest
  else
    match Shape.of word, rest with
    | .separator, [] => .noArguments
    | .separator, next :: _ => if isSubcommand next then .unknownArgument else .unknownSubcommand
    | .long "help" none, _ => .help
    | .long "version" none, _ => .version
    | .long "help" (some _), _ | .long "version" (some _), _ => .superfluousValue
    | .long _ _, _ => .unknownArgument
    | .short 'h' _, _ => .help
    | .short 'V' _, _ => .version
    | .short _ _, _ => .unknownArgument
    | .plain, _ => .unknownSubcommand

/-- Reads a command line, without the name of the program in front. -/
def ofArguments : List String → Except Refusal Command
  | [] => .error .noArguments
  | word :: rest =>
      match Subcommand.ofName? word with
      | some sub => ofWords sub rest
      | none => .error (refuse word rest)

end Command

end ProcessLogic.Cli
