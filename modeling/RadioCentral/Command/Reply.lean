import RadioCentral.Command.Execution
import RadioCentral.Command.Help
import RadioCentral.Command.Line.Reading

/-!
What the program answers to its caller: a text and an exit code.
-/
namespace RadioCentral

structure Reply where
  exit : Nat
  output : String
  /-- A message for the user, apart from the output. -/
  complaint : Option String := none
  deriving DecidableEq, Repr

/-- The settings a command line asks for: those of its file, whose text is given if it can be read, or
else the defaults. -/
def CommandLine.settings (line : CommandLine) (file : Option String) : Except CommandError AppSettings :=
  match line.config, file with
  | none, _ => .ok {}
  | some _, none => .error .file
  | some _, some text => AppSettings.ofText .toml text

namespace Reply

/-- Asking for help or the version is answered; other mistakes in the usage have a code of their own. -/
def ofUsage (e : UsageError) : Reply :=
  match e.text? with
  | some text => { exit := 0, output := text }
  | none => { exit := 2, output := "", complaint := some e.kind }

def ofFailure (printed : List String) (e : CommandError) : Reply where
  exit := 1
  output := String.join (printed.map (· ++ "\n"))
  complaint := some (e.message?.getD e.kind)

/-- Carries out a command line where no adapter exists. -/
def ofLine (line : CommandLine) (file : Option String) (drawn : Int32) : Reply :=
  match line.settings file with
  | .error e => ofFailure [] e
  | .ok settings =>
    let execution := Execution.ofLine settings line drawn .admission { adapters := 0 } []
    match execution.result with
    | .error e => ofFailure execution.printed e
    | .ok () => { exit := 0, output := String.join (execution.printed.map (· ++ "\n")) }

end Reply

end RadioCentral
