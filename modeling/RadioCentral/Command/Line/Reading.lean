import RadioCentral.Command.Line

/-!
Reading a command line. The last argument met waits until the next one is met or the line ends; only
then is it looked at, so a mistake further on may be reported in its place.
-/
namespace RadioCentral

structure Given where
  /-- The arguments that are settled, each with its value. -/
  values : List (Argument × String) := []
  /-- The argument met last, with its value if that has been met too. -/
  waiting : Option (Argument × Option String) := none
  ended : Bool := false
  deriving DecidableEq, Repr

namespace Given

def value? (a : Argument) (g : Given) : Option String := g.values.lookup a

def has (a : Argument) (g : Given) : Bool := (g.value? a).isSome

def expecting? (g : Given) : Option Argument :=
  match g.waiting with
  | some (a, none) => some a
  | _ => none

def enter (a : Argument) (value : String) (g : Given) : Except UsageError Given :=
  if g.has a then .error .repetition
  else if !a.accepts value then .error .badValue
  else .ok { g with values := g.values ++ [(a, value)] }

def settle (g : Given) : Except UsageError Given :=
  match g.waiting with
  | none => .ok g
  | some (_, none) => .error .missingValue
  | some (a, some value) => { g with waiting := none }.enter a value

def mark (t : Topic) (a : Argument) (g : Given) : Except UsageError Given := do
  let g ← g.settle
  match a with
  | .help => throw (.help t)
  | .version => throw .version
  | a => g.enter a ""

def expect (a : Argument) (value? : Option String) (g : Given) : Except UsageError Given := do
  let g ← g.settle
  return { g with waiting := some (a, value?) }

/-- Meets an option with a value attached to it, which is entered at once. -/
def attach (a : Argument) (value : String) (g : Given) : Except UsageError Given := do
  let g ← g.settle
  g.enter a value

def supply (value : String) (g : Given) : Given :=
  { g with waiting := g.waiting.map fun w => (w.1, some value) }

def meetLong (t : Topic) (name : String) (value? : Option String) (g : Given) :
    Except UsageError Given :=
  match t.options.find? (fun a => a.long = name) with
  | none => .error .unknownArgument
  | some a =>
    match a.takesValue, value? with
    | true, some value => g.attach a value
    | true, none => g.expect a none
    | false, some _ => .error .needlessValue
    | false, none => g.mark t a

/-- Meets options in their short forms behind one hyphen. What follows an option with a value is that
value, with or without an equals sign. -/
def meetShort (t : Topic) : List Char → Given → Except UsageError Given
  | [], g => .ok g
  | c :: cs, g =>
    match t.options.find? (fun a => a.short? = some c) with
    | none => .error .unknownArgument
    | some a =>
      if a.takesValue then
        match cs with
        | [] => g.expect a none
        | '=' :: value => g.attach a (String.ofList value)
        | value => g.attach a (String.ofList value)
      else (g.mark t a).bind (meetShort t cs)

/-- Meets an argument without a name. Only one command has such an argument. -/
def meetPlain (t : Topic) (text : String) (g : Given) : Except UsageError Given :=
  if t = .send && !g.has .payload && (g.waiting.map Prod.fst) ≠ some .payload then
    g.expect .payload (some text)
  else if t = .program && !(g.ended && (Topic.named? text).isSome) then .error .unknownCommand
  else .error .unknownArgument

def splitLong (cs : List Char) : String × Option String :=
  let name := cs.takeWhile (· ≠ '=')
  let value := cs.drop name.length
  (String.ofList name, if value.isEmpty then none else some (String.ofList (value.drop 1)))

def meet (t : Topic) (text : String) (g : Given) : Except UsageError Given :=
  if g.ended then g.meetPlain t text
  else if g.expecting?.any Argument.takesAnything then .ok (g.supply text)
  else
    match text.toList with
    | ['-', '-'] => .ok { g with ended := true }
    | '-' :: '-' :: option => g.meetLong t (splitLong option).1 (splitLong option).2
    | '-' :: c :: rest => g.meetShort t (c :: rest)
    | _ => if g.expecting?.isSome then .ok (g.supply text) else g.meetPlain t text

/-- The command that a piece of the line names, if one may be named there. -/
def command? (t : Topic) (text : String) (g : Given) : Option Topic :=
  if t = .program && !g.ended && g.expecting?.isNone then Topic.named? text else none

/-- Reads a place up to the end of the line or the name of a command; returns what follows the name. -/
def read (t : Topic) : List String → Given → Except UsageError (Given × Option (Topic × List String))
  | [], g => .ok (g, none)
  | text :: rest, g =>
    match g.command? t text with
    | some command => .ok (g, some (command, rest))
    | none => (g.meet t text).bind (read t rest)

end Given

namespace Command

def ofGiven (t : Topic) (g : Given) : Except UsageError Command :=
  match t with
  | .scan => .ok (.scan ((g.value? .seconds).bind Argument.seconds?))
  | .send =>
    match g.value? .recipient, g.value? .characteristic, g.value? .payload with
    | some recipient, some characteristic, some payload => .ok (.send recipient characteristic payload)
    | _, _, _ => .error .missingArgument
  | _ => .ok .config

/-- The place that names after `help` lead to. -/
def helpFor : List String → UsageError
  | [] => .help .program
  | name :: rest =>
    match Topic.named? name with
    | some t => if rest.isEmpty then .help t else .unknownCommand
    | none => .unknownCommand

/-- Reads the rest of a line behind the name of a command. -/
def read (t : Topic) (rest : List String) : Except UsageError Command :=
  if t = .help then .error (helpFor rest)
  else do
    let (given, _) ← Given.read t rest {}
    ofGiven t (← given.settle)

end Command

namespace CommandLine

/-- Reads a command line. Mistakes behind the name of the command are reported before one that waits in
front of it. -/
def read (args : List String) : Except UsageError CommandLine := do
  let (given, rest?) ← Given.read .program args {}
  let command? ← rest?.mapM fun (t, rest) => Command.read t rest
  let given ← given.settle
  match command? with
  | none => throw (if given.values.isEmpty then .nothing else .missingCommand)
  | some command =>
    return {
      command
      verbose := given.has .verbose
      config := given.value? .config
      nonce := (given.value? .nonce).bind Argument.nonce? }

end CommandLine

end RadioCentral
