import RadioCentral.Peer.Lifecycle

/-!
Switching notifications on and off: local delivery first, then the client configuration descriptor,
whose write is answered later by an event.
-/
namespace RadioCentral

inductive SubscriptionOutcome where
  /-- The descriptor write is on its way. -/
  | pending
  | noDescriptor
  /-- The descriptor write could not be issued. -/
  | refused
  deriving DecidableEq, Repr

namespace Subscription

variable {σ : Type}

def value (enable : Bool) : Bytes := if enable then enableIndication else disableNotification

/-- Switches the notifications of a characteristic. A refusal to switch local delivery is ignored. -/
def set (R : Radio σ) (handle : Handle) (c : Characteristic) (enable : Bool) (s : σ) :
    SubscriptionOutcome × σ :=
  let s := (R.ask (.setNotify handle c.uuid enable) s).2
  match c.clientConfiguration? with
  | none => (.noDescriptor, s)
  | some descriptor =>
    let (issued, s) := R.ask (.writeDescriptor handle descriptor (value enable)) s
    (if issued then .pending else .refused, s)

def event? (c : Characteristic) (enable : Bool) : SubscriptionOutcome → Option PeerEvent
  | .pending => none
  | .noDescriptor => some (if enable then .enabled c.uuid else .disableSettled c.uuid)
  | .refused => some (if enable then .enableFailed c.uuid else .disableRefused)

/-- The event the result of a descriptor write stands for. A disable write is settled by any result,
since the connection is going away; other values are nobody's. -/
def resultEvent? (characteristic : Uuid) (value : Bytes) (success : Bool) : Option PeerEvent :=
  if value = enableIndication then
    some (if success then .enabled characteristic else .enableFailed characteristic)
  else if value = disableNotification then some (.disableSettled characteristic)
  else none

end Subscription

end RadioCentral
