import RadioCentral.Gatt

/-!
The radio as the central sees it. Every request is answered at once by whether it could be issued; what
comes of it is told later by an event. A radio is given by how it answers and how answering changes
its own state.
-/
namespace RadioCentral

structure Address where
  text : String
  deriving DecidableEq, Repr, Inhabited

instance : LT Address := ⟨fun a b => a.text < b.text⟩
instance (a b : Address) : Decidable (a < b) := inferInstanceAs (Decidable (a.text < b.text))
instance : ToString Address := ⟨Address.text⟩

/-- The number of one connection of the radio. -/
structure Handle where
  id : Nat
  deriving DecidableEq, Repr, Inhabited

def Handle.text (h : Handle) : String := "#" ++ toString h.id

/-- Who sorts out advertisements of other services: the radio, or the central alone. -/
inductive ScanMode where
  | serviceFiltered
  | unfiltered
  deriving DecidableEq, Repr

/-- A way to connect: over the low-energy transport only, or as the platform sees fit. -/
inductive Route where
  | lowEnergy
  | standard
  deriving DecidableEq, Repr

def ScanMode.name : ScanMode → String
  | .serviceFiltered => "service-filtered"
  | .unfiltered => "unfiltered"

def ScanMode.ofName? (name : String) : Option ScanMode :=
  if name = "service-filtered" then some .serviceFiltered
  else if name = "unfiltered" then some .unfiltered
  else none

def Route.name : Route → String
  | .lowEnergy => "low-energy"
  | .standard => "standard"

def Route.ofName? (name : String) : Option Route :=
  if name = "low-energy" then some .lowEnergy
  else if name = "standard" then some .standard
  else none

/-- Why a connect request could not be issued, or an adapter not be opened. -/
inductive RadioError where
  | unsupported (operation : String)
  | unknownPeripheral (address : Address)
  | noAdapter
  | backend (text : String)
  deriving DecidableEq, Repr

def RadioError.kind : RadioError → String
  | .unsupported _ => "Unsupported"
  | .unknownPeripheral _ => "UnknownPeripheral"
  | .noAdapter => "NoAdapter"
  | .backend _ => "Backend"

def RadioError.message : RadioError → String
  | .unsupported operation => "Operation not supported by this platform: " ++ operation
  | .unknownPeripheral address => "Unknown peripheral: " ++ address.text
  | .noAdapter => "No BLE adapter available"
  | .backend text => "Backend error: " ++ text

/-- What can be asked of the radio beside connecting. -/
inductive Request where
  | startScan (mode : ScanMode) (service : Uuid)
  | stopScan
  | discover (handle : Handle)
  | setNotify (handle : Handle) (characteristic : Uuid) (enable : Bool)
  | writeDescriptor (handle : Handle) (descriptor : Descriptor) (value : Bytes)
  | requestUnitSize (handle : Handle) (size : UInt16)
  | write (handle : Handle) (characteristic : Uuid) (value : Bytes) (mode : WriteMode)
  | disconnect (handle : Handle)
  | release (handle : Handle)
  | invalidateCache (handle : Handle)
  deriving DecidableEq, Repr

def Request.handle? : Request → Option Handle
  | .startScan .. | .stopScan => none
  | .discover h | .setNotify h .. | .writeDescriptor h .. | .requestUnitSize h _ | .write h ..
  | .disconnect h | .release h | .invalidateCache h => some h

/-- A radio with states `σ`. Requests whose answer tells nothing (stopping the scan, disconnecting,
releasing) answer too; nobody looks at it. -/
structure Radio (σ : Type) where
  /-- Whether the unit size of a link can be negotiated at all. -/
  negotiates : σ → Bool
  /-- Issues a connect request; the handle is the caller's to release. -/
  connect : Address → Route → σ → Except RadioError Handle × σ
  /-- Issues any other request. -/
  ask : Request → σ → Bool × σ

inductive Call where
  | connect (address : Address) (route : Route)
  | ask (request : Request)
  deriving DecidableEq, Repr

namespace Radio

variable {σ : Type}

/-- Tries routes in order until one issues the request; otherwise the last error stands. -/
def dialFrom (R : Radio σ) (address : Address) (error : RadioError) :
    List Route → σ → Except RadioError Handle × σ
  | [], s => (.error error, s)
  | route :: routes, s =>
    match R.connect address route s with
    | (.ok handle, s) => (.ok handle, s)
    | (.error error, s) => R.dialFrom address error routes s

def dial (R : Radio σ) (routes : List Route) (address : Address) (s : σ) :
    Except RadioError Handle × σ :=
  R.dialFrom address (.unsupported "connect") routes s

/-- The radio that offers only what every radio must: it cannot force the low-energy transport,
negotiate a unit size or drop a cache, and it refuses to switch local delivery. -/
def minimal (R : Radio σ) : Radio σ where
  negotiates _ := false
  connect address
    | .lowEnergy, s => (.error (.unsupported "connect_low_energy"), s)
    | .standard, s => R.connect address .standard s
  ask request s :=
    match request with
    | .requestUnitSize .. | .invalidateCache .. => (false, s)
    | .setNotify .. => (false, (R.ask request s).2)
    | _ => R.ask request s

end Radio

end RadioCentral
