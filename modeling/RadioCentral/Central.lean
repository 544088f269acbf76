import RadioCentral.Event
import RadioCentral.Registry
import RadioCentral.Scan
import RadioCentral.Settings

/-!
The state of a central: its peers, its scan, the queue of connection attempts and the reports it has
made. A central acts on a radio; the two together are a `World`.
-/
namespace RadioCentral

/-- Who takes queued connection attempts off the queue. -/
inductive Receiver where
  /-- Nobody so far; attempts wait. -/
  | unclaimed
  | claimed
  /-- The one who took them is gone; no attempt can be queued any more. -/
  | dropped
  deriving DecidableEq, Repr

/-- The queue of connection attempts, oldest first. -/
structure Dispatch where
  queue : List Address := []
  receiver : Receiver := .unclaimed
  deriving DecidableEq, Repr

namespace Dispatch

def send (a : Address) (d : Dispatch) : Bool × Dispatch :=
  if d.receiver = .dropped then (false, d) else (true, { d with queue := d.queue ++ [a] })

/-- Takes the receiver; only the first to ask gets it. -/
def claim (d : Dispatch) : Bool × Dispatch :=
  if d.receiver = .unclaimed then (true, { d with receiver := .claimed }) else (false, d)

def drop (_ : Dispatch) : Dispatch := { queue := [], receiver := .dropped }

end Dispatch

structure Central where
  settings : Settings
  registry : Registry := {}
  scanner : Scanner
  /-- The characteristics to subscribe to on connections discovered from now on. -/
  notify : UuidSet := ∅
  nonce : Int32 := 0
  /-- Which peers may be connected to; all of them without a governor. -/
  governor : Option (Address → Bool) := none
  dispatch : Dispatch := {}
  /-- The reports made and not yet taken, oldest first. -/
  reports : List Report := []

namespace Central

def ofSettings (settings : Settings) : Central where
  settings
  scanner := { mode := settings.scanMode, service := settings.service }
  notify := UuidSet.ofList settings.notify

def isScanning (c : Central) : Bool := c.scanner.active

/-- Whether no peer is connecting, connected or on its way out. -/
def isIdle (c : Central) : Bool := c.registry.isEmpty

def peerCount (c : Central) : Nat := c.registry.size

def connectedAddresses (c : Central) : List Address := c.registry.readyAddresses

def isConnectedTo (c : Central) (a : Address) : Bool := c.registry.isReady a

def isConnecting (c : Central) (a : Address) : Bool := c.registry.isConnecting a

def phase? (c : Central) (a : Address) : Option Phase := (c.registry.get? a).map (·.phase)

def unitSize? (c : Central) (a : Address) : Option UInt16 := (c.registry.get? a).bind (·.unitSize)

def characteristics? (c : Central) (a : Address) : Option (List Characteristic) :=
  (c.registry.get? a).bind (·.discovered)

def allows (c : Central) (a : Address) : Bool :=
  match c.governor with
  | some governor => governor a
  | none => true

def report (report : Report) (c : Central) : Central := { c with reports := c.reports ++ [report] }

end Central

structure World (σ : Type) where
  central : Central
  radio : σ

end RadioCentral
