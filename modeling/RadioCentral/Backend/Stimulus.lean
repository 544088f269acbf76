import RadioCentral.Backend

/-!
What happens to the hardware from outside: events around the adapter, values sent by devices, calls
that come to their end, and changes of what is laid down.
-/
namespace RadioCentral

/-- A change of a device; what is absent stays as it is. -/
structure DeviceChange where
  sighting : Option (Option Sighting) := none
  gatt : Option (List Service) := none
  connected : Option Bool := none
  script : List (CallKind × Option Outcome) := []
  deriving DecidableEq, Repr

def DeviceChange.apply (c : DeviceChange) (d : Device) : Device :=
  { d with
    sighting := c.sighting.getD d.sighting
    gatt := c.gatt.getD d.gatt
    connected := c.connected.getD d.connected
    script := d.script.changeAll c.script }

inductive Stimulus where
  | adapterEvent (event : AdapterEvent)
  | endEvents
  | adapter (script : List (CallKind × Option Outcome))
  /-- Changes a device, or brings a new one. -/
  | device (id : Address) (change : DeviceChange)
  | removeDevice (id : Address)
  /-- Ends the oldest open call of a kind at a place. -/
  | finish (place : Address) (kind : CallKind) (failure : Option Failure)
  | notify (device : Address) (characteristic : Uuid) (value : Bytes)
  | endNotifications (device : Address)
  deriving DecidableEq, Repr

namespace Backend

/-- The call a waiter waits for, as far as it changes the hardware when it succeeds. -/
def effectOf (held : Held) (hw : Hardware) : Hardware :=
  match held.kind with
  | .connect => hw.takeEffect (.device held.place .connect)
  | .disconnect => hw.takeEffect (.device held.place .disconnect)
  | .discoverServices => hw.takeEffect (.device held.place .discoverServices)
  | _ => hw

def finishAt (i : Nat) (failure : Option Failure) (b : Backend) : Backend :=
  match b.held[i]? with
  | none => b
  | some held => { b with
      held := b.held.eraseIdx i
      hardware := if failure.isNone then effectOf held b.hardware else b.hardware
      ready := b.ready ++ [.resume held.waiter failure] }

def wakeReaders (device : Address) (b : Backend) : Backend :=
  (b.links.handlesTo device).foldl (fun b h => b.wake (.deliver h)) b

def stimulate (s : Stimulus) (b : Backend) : Backend :=
  match s with
  | .adapterEvent event =>
    if b.inboxOpen && b.reader != .stopped then { b with inbox := b.inbox ++ [event] }.wake .read else b
  | .endEvents => { b with inboxOpen := false }
  | .adapter script =>
    { b with hardware := { b.hardware with script := b.hardware.script.changeAll script } }
  | .device id change =>
    { b with hardware := b.hardware.setDevice id (change.apply ((b.hardware.device? id).getD {})) }
  | .removeDevice id =>
    { b with hardware := b.hardware.removeDevice id, links := b.links.endStreams id }
  | .finish place kind failure =>
    match b.held.findIdx? fun held => held.place = place ∧ held.kind = kind with
    | some i => b.finishAt i failure
    | none => b
  | .notify device characteristic value =>
    { b with links := b.links.put device (characteristic, value) }.wakeReaders device
  | .endNotifications device => { b with links := b.links.endStreams device }

end Backend

end RadioCentral
