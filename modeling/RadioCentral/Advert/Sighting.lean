import RadioCentral.Advert.Builder

/-!
A sighting is an advertisement as the adapter hands it over, already taken apart. Writing it as bytes
again lets it go the way of any other advertisement.
-/
namespace RadioCentral

structure Sighting where
  services : List Uuid := []
  /-- Service data, ascending by identifier. -/
  serviceData : List (Uuid × Bytes) := []
  deriving DecidableEq, Repr

namespace Sighting

/-- Service data as a map lists it: ascending, the last entry of an identifier standing. -/
def orderedData (entries : List (Uuid × Bytes)) : List (Uuid × Bytes) :=
  let kept := entries.foldl (fun kept e => e :: kept.filter fun other => other.1 ≠ e.1) []
  kept.mergeSort fun a b => a.1.toNat ≤ b.1.toNat

def shortServices (s : Sighting) : List UInt16 := s.services.filterMap Uuid.shorten

def longServices (s : Sighting) : List Uuid := s.services.filter fun u => u.shorten.isNone

/-- Service data under a short form; no other is ever looked for. -/
def shortServiceData (s : Sighting) : List ServiceData :=
  s.serviceData.filterMap fun entry => entry.1.shorten.map fun short => ⟨short, entry.2⟩

def parts (s : Sighting) : List Advert.Part :=
  (if s.shortServices.isEmpty then [] else [.shortServices s.shortServices]) ++
    (if s.longServices.isEmpty then [] else [.longServices s.longServices]) ++
    s.shortServiceData.map fun d => .serviceData d.uuid d.data

def payload (s : Sighting) : Bytes := Advert.build s.parts

end Sighting

end RadioCentral
