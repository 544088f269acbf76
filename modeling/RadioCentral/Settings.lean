import RadioCentral.Radio

/-!
The settings of a central. Each `with` function changes one setting.
-/
namespace RadioCentral

structure Settings where
  /-- The service every peer must advertise and expose. -/
  service : Uuid := Uuid.meshService
  scanMode : ScanMode := .unfiltered
  /-- Whether to ask for a larger unit size once notifications are on. -/
  negotiate : Bool := true
  unitSize : UInt16 := 512
  /-- The ways to connect, in order of preference. -/
  routes : List Route := [.lowEnergy, .standard]
  notify : List Uuid := []
  deriving DecidableEq, Repr, Inhabited

namespace Settings

def withService (u : Uuid) (s : Settings) : Settings := { s with service := u }
def withScanMode (m : ScanMode) (s : Settings) : Settings := { s with scanMode := m }
def withNegotiation (b : Bool) (s : Settings) : Settings := { s with negotiate := b }
def withUnitSize (n : UInt16) (s : Settings) : Settings := { s with unitSize := n }
def withRoutes (rs : List Route) (s : Settings) : Settings := { s with routes := rs }

def withNotify (u : Uuid) (s : Settings) : Settings :=
  if u ∈ s.notify then s else { s with notify := s.notify ++ [u] }

end Settings

end RadioCentral
