import RadioCentral.Radio

/-!
A radio without hardware. It records what is asked of it, answers by its flags and hands out the
handles 1, 2, 3 and so on; events are for others to make up.
-/
namespace RadioCentral

/-- How a simulated radio answers each kind of request. -/
structure SimulatedFlags where
  scan : Bool := true
  lowEnergy : Bool := true
  connect : Bool := true
  discovery : Bool := true
  descriptor : Bool := true
  negotiationSupported : Bool := true
  negotiation : Bool := true
  write : Bool := true
  cache : Bool := true
  deriving DecidableEq, Repr

structure SimulatedRadio where
  flags : SimulatedFlags := {}
  nextHandle : Nat := 1
  calls : List Call := []
  deriving DecidableEq, Repr

namespace SimulatedRadio

def record (call : Call) (s : SimulatedRadio) : SimulatedRadio := { s with calls := s.calls ++ [call] }

def clearCalls (s : SimulatedRadio) : SimulatedRadio := { s with calls := [] }

/-- Connecting over the low-energy transport needs that transport as well. -/
def accepts (flags : SimulatedFlags) : Route → Bool
  | .lowEnergy => flags.lowEnergy && flags.connect
  | .standard => flags.connect

def answer (flags : SimulatedFlags) : Request → Bool
  | .startScan .. => flags.scan
  | .discover _ => flags.discovery
  | .writeDescriptor .. => flags.descriptor
  | .requestUnitSize .. => flags.negotiation
  | .write .. => flags.write
  | .invalidateCache _ => flags.cache
  | .stopScan | .setNotify .. | .disconnect _ | .release _ => true

def radio : Radio SimulatedRadio where
  negotiates s := s.flags.negotiationSupported
  connect address route s :=
    let s := s.record (.connect address route)
    if accepts s.flags route then
      (.ok ⟨s.nextHandle⟩, { s with nextHandle := s.nextHandle + 1 })
    else (.error (.backend ("simulated connect to " ++ address.text ++ " refused")), s)
  ask request s := (answer s.flags request, s.record (.ask request))

def position? (s : SimulatedRadio) (call : Call) : Option Nat := s.calls.findIdx? (· = call)

def count (s : SimulatedRadio) (p : Call → Bool) : Nat := s.calls.countP p

def connectAttempts (s : SimulatedRadio) : List (Address × Route) :=
  s.calls.filterMap fun
    | .connect address route => some (address, route)
    | .ask _ => none

def released (s : SimulatedRadio) : List Handle :=
  s.calls.filterMap fun
    | .ask (.release handle) => some handle
    | _ => none

end SimulatedRadio

end RadioCentral
