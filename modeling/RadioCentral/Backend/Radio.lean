import RadioCentral.Backend

/-!
The backend as a radio. It cannot force the low-energy transport, negotiate a unit size or drop a cache,
and it connects only to devices it has seen.
-/
namespace RadioCentral.Backend

def dial (device : Address) (b : Backend) : Except RadioError Handle × Backend :=
  if device ∈ b.known then
    let h : Handle := ⟨b.nextHandle⟩
    let links := b.links ++ [{ handle := h, device }]
    (.ok h, { b with nextHandle := b.nextHandle + 1, links }.spawn (.connect h device))
  else (.error (.unknownPeripheral device), b)

/-- Starts a job on the device of a link; refused for a handle without one. -/
def onLink (h : Handle) (job : Address → Job) (b : Backend) : Bool × Backend :=
  match b.links.device? h with
  | some device => (true, b.spawn (job device))
  | none => (false, b)

/-- Starts a write on the first characteristic with the identifier; refused if there is none. -/
def write (h : Handle) (c : Uuid) (value : Bytes) (mode : WriteMode) (b : Backend) : Bool × Backend :=
  match b.links.device? h with
  | none => (false, b)
  | some device =>
    match b.hardware.attribute? device c with
    | some target => (true, b.spawn (.write h device target value mode))
    | none => (false, b)

/-- Closes a link and sees to it that its device is let go. -/
def release (h : Handle) (b : Backend) : Backend :=
  match b.links.device? h with
  | some device => { b with links := b.links.close h }.spawn (.checkReleased device)
  | none => b

def scanFilter (service : Uuid) : ScanMode → List Uuid
  | .serviceFiltered => [service]
  | .unfiltered => []

def ask (request : Request) (b : Backend) : Bool × Backend :=
  match request with
  | .startScan mode service => (true, b.spawn (.startScan (scanFilter service mode)))
  | .stopScan => (true, b.spawn .stopScan)
  | .discover h => b.onLink h (.discover h)
  | .setNotify h c enable =>
    let (known, links) := b.links.setNotifying h c enable
    (known, { b with links })
  | .writeDescriptor h d value => b.onLink h (.writeDescriptor h · d value)
  | .requestUnitSize .. => (false, b)
  | .write h c value mode => b.write h c value mode
  | .disconnect h => b.onLink h (.disconnect h)
  | .release h => (true, b.release h)
  | .invalidateCache _ => (false, b)

def radio : Radio Backend where
  negotiates _ := false
  connect address
    | .lowEnergy, b => (.error (.unsupported "connect_low_energy"), b)
    | .standard, b => b.dial address
  ask := ask

/-- Drops the radio. Adapter events are no longer read and all links are closed; jobs go on. -/
def drop (b : Backend) : Backend := { b with reader := .stopped, inbox := [], links := [] }

def deafen (b : Backend) : Backend := { b with listening := false, events := [] }

end RadioCentral.Backend
