import RadioCentral.Text.Numeral

/-!
The command line of the program: what can be asked for and what may be wrong with it.
-/
namespace RadioCentral

inductive Command where
  /-- Scans, connects and prints what peers send, for so many seconds or until interrupted. -/
  | scan (seconds : Option UInt64)
  /-- Writes one payload; its parts are texts not looked at yet. -/
  | send (recipient characteristic payload : String)
  | config
  deriving DecidableEq, Repr

structure CommandLine where
  command : Command
  verbose : Bool := false
  config : Option String := none
  nonce : Option Int32 := none
  deriving DecidableEq, Repr

/-- A place on the command line: before the command, or after one of these names. -/
inductive Topic where
  | program
  | scan
  | send
  | config
  | help
  deriving DecidableEq, Repr

/-- What may be given: the options, and the payload, which has no name in front of it. -/
inductive Argument where
  | verbose
  | config
  | nonce
  | seconds
  | recipient
  | characteristic
  | payload
  | help
  | version
  deriving DecidableEq, Repr

inductive UsageError where
  | unknownArgument
  | unknownCommand
  | missingCommand
  | missingArgument
  /-- An option has no value where it needs one. -/
  | missingValue
  /-- An option has a value where it takes none. -/
  | needlessValue
  /-- A value is no number, or out of range. -/
  | badValue
  | repetition
  | nothing
  | help (topic : Topic)
  | version
  deriving DecidableEq, Repr

namespace UsageError

def kind : UsageError → String
  | unknownArgument => "UnknownArgument"
  | unknownCommand => "InvalidSubcommand"
  | missingCommand => "MissingSubcommand"
  | missingArgument => "MissingRequiredArgument"
  | missingValue => "InvalidValue"
  | needlessValue => "TooManyValues"
  | badValue => "ValueValidation"
  | repetition => "ArgumentConflict"
  | nothing => "DisplayHelpOnMissingArgumentOrSubcommand"
  | help _ => "DisplayHelp"
  | version => "DisplayVersion"

end UsageError

namespace Topic

def named? : String → Option Topic
  | "scan" => some scan
  | "send" => some send
  | "config" => some config
  | "help" => some help
  | _ => none

/-- What may be given at a place, the payload apart. -/
def options : Topic → List Argument
  | program => [.verbose, .config, .nonce, .help, .version]
  | scan => [.seconds, .help]
  | send => [.recipient, .characteristic, .help]
  | config => [.help]
  | help => []

end Topic

namespace Argument

def long : Argument → String
  | verbose => "verbose"
  | config => "config"
  | nonce => "nonce"
  | seconds => "seconds"
  | recipient => "to"
  | characteristic => "characteristic"
  | payload => "payload"
  | help => "help"
  | version => "version"

def short? : Argument → Option Char
  | verbose => some 'v'
  | config => some 'c'
  | nonce => some 'n'
  | seconds => some 's'
  | recipient => some 't'
  | characteristic => some 'u'
  | payload => none
  | help => some 'h'
  | version => some 'V'

def takesValue : Argument → Bool
  | verbose | help | version => false
  | _ => true

/-- Whether whatever comes next is the value, even if it looks like an option. -/
def takesAnything (a : Argument) : Bool := a = nonce

def nonce? (value : String) : Option Int32 :=
  (Text.int? value).bind fun n =>
    if -2147483648 ≤ n ∧ n ≤ 2147483647 then some (Int32.ofInt n) else none

def seconds? (value : String) : Option UInt64 :=
  (Text.nat? value).bind fun n => if n < 18446744073709551616 then some (UInt64.ofNat n) else none

def accepts (value : String) : Argument → Bool
  | nonce => (nonce? value).isSome
  | seconds => (seconds? value).isSome
  | _ => true

end Argument

end RadioCentral
