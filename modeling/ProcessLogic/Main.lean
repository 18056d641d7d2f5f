import ProcessLogic.Cli.Session

/-!
# The program

The outer layer of the command line: it gathers what a session needs to know of the world, runs
the session, and prints what came of it.

## The engine

The program does not start engines by itself.  Whoever starts it attaches one: descriptor 4 leads
to the input of the engine, and descriptor 3 comes from its output.  If nothing is attached there,
the engine counts as one that is not found.

Once the engine has been asked, its input is closed.  If the time limit strikes, the outcome is
printed at once, and the program ends when the output of the engine does.
-/

namespace ProcessLogic.Main

open Cli

/-- What is printed for those who ask for help, or who need it. -/
def usage : String :=
  "Check CCS processes for bisimilarity or HML properties\n\n"
    ++ "Usage: ccsv strong <FIRST> <SECOND> --program <PROGRAM> [OPTIONS]\n"
    ++ "       ccsv weak <FIRST> <SECOND> --program <PROGRAM> [OPTIONS]\n"
    ++ "       ccsv hml <PROCESS> <FORMULA> --program <PROGRAM> [--strict] [OPTIONS]\n\n"
    ++ "Options: --engine <ENGINE>, --engine-arg <ARG>, --timeout <SECONDS>, "
    ++ "--format <text|json>\n"

/-- Reads bytes up to a newline, and no further. -/
partial def readLine (source : IO.FS.Handle) (line : List UInt8) : IO (List UInt8) := do
  match (← source.read 1).toList with
  | [] => return line.reverse
  | byte :: _ =>
      if byte = Connection.newline then return (byte :: line).reverse
      else readLine source (byte :: line)

/-- The first line of output, or none if the time limit strikes before it is there. -/
def awaitLine (config : Config) (source : IO.FS.Handle) : IO (Option (List UInt8)) := do
  let reading ← IO.asTask (some <$> readLine source []) .dedicated
  match config.timeout? with
  | none => IO.ofExcept reading.get
  | some secs =>
      let millis := min (secs.toNat * 1000) (UInt32.size - 1)
      let limit ← IO.asTask (do IO.sleep millis.toUInt32; return none) .dedicated
      IO.ofExcept (← IO.waitAny [reading, limit])

/-- Tells the attached engine what it is to check, and takes down what it does. -/
def observe (config : Config) (requests : List Request) : IO Behaviour := do
  try
    let source ← IO.FS.Handle.mk "/dev/fd/3" .read
    let target ← IO.FS.Handle.mk "/dev/fd/4" .write
    for request in requests do
      target.putStr request.line
      target.flush
    match ← awaitLine config source with
    | some output => return .runs { output }
    | none => return .runs { closes := false }
  catch _ => return .refuses .notFound

/-- The variables that a configuration is made of. -/
def environment : IO (List (String × List UInt8)) := do
  let names := [Config.commandVariable, Config.argsVariable, Config.timeoutVariable]
  names.filterMapM fun name => do
    return (← IO.getEnv name).map fun value => (name, value.toUTF8.toList)

/-- The contents of a file, if it can be read. -/
def contents (path : String) : IO (Option (List UInt8)) := do
  try
    return some (← IO.FS.readBinFile path).toList
  catch _ => return none

/-- Runs the session of a command line that asks a question. -/
def ask (args : List String) (command : Command) : IO UInt32 := do
  let settings ← environment
  let program ← contents command.program
  let alone : Surroundings :=
    ⟨fun _ => program, fun name => List.lookup name settings, fun _ => .refuses .notFound, false⟩
  let behaviour ← match program.bind Connection.decodeText? with
    | none => pure (.refuses .notFound)
    | some text =>
        observe (alone.config command.overrides) [.program text, command.question.request]
  match Session.run { alone with engine := fun _ => behaviour } args with
  | none => return 1
  | some ending =>
      IO.print ending.output
      (← IO.getStdout).flush
      return UInt32.ofNat ending.status

end ProcessLogic.Main

def main (args : List String) : IO UInt32 := do
  match ProcessLogic.Cli.Command.ofArguments args with
  | .ok command => ProcessLogic.Main.ask args command
  | .error refusal =>
      if refusal.status = 0 then IO.print ProcessLogic.Main.usage
      else IO.eprint ProcessLogic.Main.usage
      return UInt32.ofNat refusal.status
