import RadioCentral.Advert.Sighting
import RadioCentral.Gatt.Order
import RadioCentral.Hardware.Failure
import RadioCentral.Radio

/-!
The hardware below a radio: an adapter and the devices around it. Every call is noted when it is made.
What comes of it is laid down beforehand, call by call: it succeeds, it fails, or it waits to be
finished later.
-/
namespace RadioCentral

/-- The calls whose outcome can be laid down. -/
inductive CallKind where
  | openManager
  | listAdapters
  | listen
  | startScan
  | stopScan
  | properties
  | connect
  | disconnect
  | isConnected
  | notifications
  | discoverServices
  | subscribe
  | unsubscribe
  | write
  | writeDescriptor
  deriving DecidableEq, Repr

namespace CallKind

def all : List CallKind :=
  [openManager, listAdapters, listen, startScan, stopScan, properties, connect, disconnect, isConnected,
    notifications, discoverServices, subscribe, unsubscribe, write, writeDescriptor]

def name : CallKind → String
  | openManager => "manager"
  | listAdapters => "adapters"
  | listen => "events"
  | startScan => "start_scan"
  | stopScan => "stop_scan"
  | properties => "properties"
  | connect => "connect"
  | disconnect => "disconnect"
  | isConnected => "is_connected"
  | notifications => "notifications"
  | discoverServices => "discover_services"
  | subscribe => "subscribe"
  | unsubscribe => "unsubscribe"
  | write => "write"
  | writeDescriptor => "write_descriptor"

end CallKind

inductive Outcome where
  | succeed
  | fail (failure : Failure)
  /-- The call stays open until it is finished. -/
  | hold
  deriving DecidableEq, Repr

/-- The outcomes laid down; every other call succeeds. -/
abbrev Script := List (CallKind × Outcome)

namespace Script

def outcome (s : Script) (kind : CallKind) : Outcome := (s.lookup kind).getD .succeed

/-- Lays down an outcome or takes one back. -/
def change (s : Script) (kind : CallKind) (outcome? : Option Outcome) : Script :=
  outcome?.toList.map (kind, ·) ++ s.filter fun entry => entry.1 ≠ kind

def changeAll (s : Script) (changes : List (CallKind × Option Outcome)) : Script :=
  changes.foldl (fun s entry => s.change entry.1 entry.2) s

end Script

structure Device where
  /-- What the adapter says of the device, if it says anything. -/
  sighting : Option Sighting := none
  gatt : List Service := []
  connected : Bool := false
  script : Script := []
  /-- The services as the last discovery found them. -/
  discovered : List Service := []
  deriving DecidableEq, Repr

inductive DeviceCall where
  | connect
  | disconnect
  | isConnected
  | notifications
  | discoverServices
  | subscribe (target : Attribute)
  | unsubscribe (target : Attribute)
  | write (target : Attribute) (value : Bytes) (mode : WriteMode)
  | writeDescriptor (descriptor : Descriptor) (value : Bytes)
  deriving DecidableEq, Repr

inductive HardwareCall where
  /-- Scanning for the services of a filter, or for all without one. -/
  | startScan (filter : List Uuid)
  | stopScan
  | device (id : Address) (call : DeviceCall)
  deriving DecidableEq, Repr

def DeviceCall.kind : DeviceCall → CallKind
  | connect => .connect
  | disconnect => .disconnect
  | isConnected => .isConnected
  | notifications => .notifications
  | discoverServices => .discoverServices
  | subscribe _ => .subscribe
  | unsubscribe _ => .unsubscribe
  | write .. => .write
  | writeDescriptor .. => .writeDescriptor

def HardwareCall.kind : HardwareCall → CallKind
  | startScan _ => .startScan
  | stopScan => .stopScan
  | device _ call => call.kind

/-- The address under which calls on the adapter itself are kept. A device without a name shares it. -/
def adapterPlace : Address := ⟨""⟩

def HardwareCall.place : HardwareCall → Address
  | device id _ => id
  | _ => adapterPlace

structure Hardware where
  adapters : Nat := 1
  script : Script := []
  devices : List (Address × Device) := []
  calls : List HardwareCall := []

namespace Hardware

def device? (h : Hardware) (id : Address) : Option Device := h.devices.lookup id

def setDevice (id : Address) (d : Device) (h : Hardware) : Hardware :=
  { h with devices := (id, d) :: h.devices.filter fun entry => entry.1 ≠ id }

def modifyDevice (id : Address) (f : Device → Device) (h : Hardware) : Hardware :=
  match h.device? id with
  | some d => h.setDevice id (f d)
  | none => h

def removeDevice (id : Address) (h : Hardware) : Hardware :=
  { h with devices := h.devices.filter fun entry => entry.1 ≠ id }

/-- What is laid down for a call on a device; one that is not there agrees to everything. -/
def outcomeOn (h : Hardware) (id : Address) (kind : CallKind) : Outcome :=
  ((h.device? id).map fun d => d.script.outcome kind).getD .succeed

def outcome (h : Hardware) : HardwareCall → Outcome
  | .device id call => h.outcomeOn id call.kind
  | call => h.script.outcome call.kind

def note (call : HardwareCall) (h : Hardware) : Hardware := { h with calls := h.calls ++ [call] }

def clearCalls (h : Hardware) : Hardware := { h with calls := [] }

def adapterCalls (h : Hardware) : List HardwareCall := h.calls.filter fun c => c.place = adapterPlace

def deviceCalls (h : Hardware) : List (Address × List HardwareCall) :=
  let places := (h.calls.map HardwareCall.place).filter fun place => place ≠ adapterPlace
  places.eraseDups.map fun place => (place, h.calls.filter fun c => c.place = place)

def isConnected (h : Hardware) (id : Address) : Bool := ((h.device? id).map (·.connected)).getD false

def services (h : Hardware) (id : Address) : List Service := ((h.device? id).map (·.discovered)).getD []

def attribute? (h : Hardware) (id : Address) (uuid : Uuid) : Option Attribute :=
  (Attribute.listing (h.services id)).find? fun a => a.uuid = uuid

def takeEffect (call : HardwareCall) (h : Hardware) : Hardware :=
  match call with
  | .device id .connect => h.modifyDevice id fun d => { d with connected := true }
  | .device id .disconnect => h.modifyDevice id fun d => { d with connected := false }
  | .device id .discoverServices =>
    h.modifyDevice id fun d => { d with discovered := Service.listing d.gatt }
  | _ => h

end Hardware

end RadioCentral
