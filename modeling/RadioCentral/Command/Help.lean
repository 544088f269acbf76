import RadioCentral.Command.Line

/-!
The help texts and the version of the program.
-/
namespace RadioCentral

/-- A table of the help text: its title, and what it explains with the explanations. -/
structure HelpTable where
  title : String
  rows : List (String × String)

namespace HelpTable

/-- The explanations start in one column, two blanks behind the longest entry. -/
def text (t : HelpTable) : String :=
  let width := t.rows.foldl (fun n row => max n row.1.length) 0
  t.title ++ ":\n" ++ String.join (t.rows.map fun row =>
    "  " ++ row.1 ++ String.ofList (List.replicate (width - row.1.length + 2) ' ') ++ row.2 ++ "\n")

end HelpTable

namespace Argument

def usage (a : Argument) : String :=
  (match a.short? with
    | some c => "-" ++ c.toString ++ ", --" ++ a.long
    | none => "--" ++ a.long) ++
    (if a.takesValue then " <" ++ a.long.toUpper ++ ">" else "")

def about : Argument → String
  | verbose => "Enable verbose logging"
  | config => "Configuration file path"
  | nonce => "Local advertisement nonce (random when omitted)"
  | seconds => "Stop after this many seconds (runs until Ctrl+C when omitted)"
  | recipient => "Peer address as reported by the adapter"
  | characteristic => "Characteristic UUID to write to"
  | payload => "Payload as a hex string"
  | help => "Print help"
  | version => "Print version"

end Argument

namespace Topic

def about : Topic → String
  | program => "Command-line driver for the blemesh BLE central"
  | scan => "Scan, connect to mesh peers and print what they send"
  | send => "Wait for a peer to become ready, write one payload and exit"
  | config => "Print the effective configuration as TOML"
  | help => "Print this message or the help of the given subcommand(s)"

def usage : Topic → String
  | program => "blemesh [OPTIONS] <COMMAND>"
  | scan => "blemesh scan [OPTIONS]"
  | send => "blemesh send --to <TO> --characteristic <CHARACTERISTIC> <PAYLOAD>"
  | config => "blemesh config"
  | help => "blemesh help [COMMAND]..."

def commands : List (String × Topic) :=
  [("scan", scan), ("send", send), ("config", config), ("help", help)]

def tables (t : Topic) : List HelpTable :=
  let options : HelpTable := ⟨"Options", t.options.map fun a => (a.usage, a.about)⟩
  match t with
  | program => [⟨"Commands", commands.map fun c => (c.1, c.2.about)⟩, options]
  | send => [⟨"Arguments", [("<PAYLOAD>", Argument.payload.about)]⟩, options]
  | help => [⟨"Arguments", [("[COMMAND]...", "Print help for the subcommand(s)")]⟩]
  | scan | config => [options]

def helpText (t : Topic) : String :=
  t.about ++ "\n\nUsage: " ++ t.usage ++ "\n" ++ String.join (t.tables.map fun table => "\n" ++ table.text)

end Topic

def versionText : String := "blemesh-cli 0.1.0\n"

/-- What a command line that only asks for a text is answered with. -/
def UsageError.text? : UsageError → Option String
  | .help t => some t.helpText
  | .version => some versionText
  | _ => none

end RadioCentral
