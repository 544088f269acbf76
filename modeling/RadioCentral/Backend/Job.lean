import RadioCentral.Event
import RadioCentral.Hardware

/-!
What is left to do for a request once the radio has accepted it. A job waits for one call of the
hardware at a time; the answer tells what is next. Jobs get shorter: each answer leads to a job with
fewer calls to come, or to the end.
-/
namespace RadioCentral

inductive Job where
  | startScan (filter : List Uuid)
  | stopScan
  | connect (handle : Handle) (device : Address)
  /-- The connection is up and its values are to be listened to. -/
  | listen (handle : Handle) (device : Address)
  /-- The connection came up for a handle that had been released. -/
  | closeOrphan (device : Address)
  | discover (handle : Handle) (device : Address)
  | writeDescriptor (handle : Handle) (device : Address) (descriptor : Descriptor) (value : Bytes)
  | write (handle : Handle) (device : Address) (target : Attribute) (value : Bytes) (mode : WriteMode)
  | disconnect (handle : Handle) (device : Address)
  /-- A handle was released; its device may still be connected. -/
  | checkReleased (device : Address)
  | closeReleased (device : Address)
  deriving DecidableEq, Repr

namespace Job

def calls : Job → Nat
  | connect .. => 3
  | listen .. | checkReleased _ => 2
  | _ => 1

def handle? : Job → Option Handle
  | connect h _ | listen h _ | discover h _ | writeDescriptor h .. | write h .. | disconnect h _ => some h
  | startScan _ | stopScan | closeOrphan _ | checkReleased _ | closeReleased _ => none

inductive Next where
  | call (call : HardwareCall)
  /-- The result is there without a call. -/
  | settled (success : Bool)
  deriving DecidableEq, Repr

/-- The call a descriptor write comes to. The client configuration is not written but subscribed to, or
unsubscribed from when the value switches everything off. Another descriptor that the characteristic
lacks counts as written. -/
def descriptorCall (hw : Hardware) (device : Address) (d : Descriptor) (value : Bytes) : Next :=
  match hw.attribute? device d.characteristic with
  | none => .settled false
  | some target =>
    if d.uuid = Uuid.clientConfiguration then
      .call (.device device
        (if value = disableNotification then .unsubscribe target else .subscribe target))
    else
      match target.characteristic.descriptors.find? fun e => e.uuid = d.uuid with
      | some found => .call (.device device (.writeDescriptor found value))
      | none => .settled true

def next (hw : Hardware) : Job → Next
  | startScan filter => .call (.startScan filter)
  | stopScan => .call .stopScan
  | connect _ device => .call (.device device .connect)
  | listen _ device => .call (.device device .notifications)
  | closeOrphan device => .call (.device device .disconnect)
  | discover _ device => .call (.device device .discoverServices)
  | writeDescriptor _ device d value => descriptorCall hw device d value
  | write _ device target value mode => .call (.device device (.write target value mode))
  | disconnect _ device => .call (.device device .disconnect)
  | checkReleased device => .call (.device device .isConnected)
  | closeReleased device => .call (.device device .disconnect)

end Job

def writeFailed : UInt8 := 0x85

end RadioCentral
