import RadioCentral.AppSettings.Text
import RadioCentral.Command.Line
import RadioCentral.Station.Clock
import RadioCentral.Text.Blank

/-!
Commands carried out on an adapter while things happen around it.
-/
namespace RadioCentral

structure Execution where
  result : Except CommandError Unit
  /-- For how many milliseconds it ran. -/
  elapsed : Nat
  printed : List String
  hardware : Hardware

namespace Command

/-- The bytes of a payload; white space around it does not count. -/
def payload (text : String) : Except CommandError Bytes :=
  match Hex.decode (Text.trimmed text) with
  | .ok data => .ok data
  | .error e => .error (.payload e)

/-- What the adapter is needed for. The parts of a write are looked at before it is opened, the
characteristic first. -/
def errand? : Command → Except CommandError (Option Errand)
  | scan seconds => .ok (some (.watch seconds))
  | send recipient characteristic text =>
    match Uuid.ofText? characteristic with
    | none => .error .uuid
    | some c => (payload text).map fun data => some (.send ⟨recipient⟩ c data)
  | config => .ok none

end Command

def Conclusion.result : Conclusion → Except CommandError Unit
  | .failed e => .error e
  | .finished | .ready _ => .ok ()

namespace Execution

def idle (hardware : Hardware) (printed : Except CommandError (List String)) : Execution where
  result := printed.map fun _ => ()
  elapsed := 0
  printed := printed.toOption.getD []
  hardware

/-- The lines of a text in which every line has an end. -/
def linesOf (text : String) : List String := (text.splitOn "\n").dropLast

/-- Runs an errand. A program that has shut down drops its radio; one that gave up before leaves it to
its driver. -/
def ofErrand (settings : AppSettings) (nonce : Option Int32) (drawn : Int32) (order : Registry.Order)
    (errand : Errand) (hardware : Hardware) (script : List (Nat × Occurrence)) : Execution :=
  let (conclusion, elapsed, s) :=
    (Station.ofHardware settings nonce drawn order hardware).complete (Station.launch errand) script
  let left := (if s.driven.running then s else s.onRadio Backend.drop).rest 1
  { result := conclusion.result, elapsed, printed := s.printed, hardware := left.radio.hardware }

/-- Carries out a command line. A nonce drawn at random stands in for one that is given nowhere. -/
def ofLine (settings : AppSettings) (line : CommandLine) (drawn : Int32) (order : Registry.Order)
    (hardware : Hardware) (script : List (Nat × Occurrence)) : Execution :=
  match line.command.errand? with
  | .error e => idle hardware (.error e)
  | .ok none => idle hardware ((settings.toText .toml).map linesOf)
  | .ok (some errand) => ofErrand settings line.nonce drawn order errand hardware script

end Execution

end RadioCentral
