import RadioCentral.Radio
import RadioCentral.Uuid.Set

/-!
One peer as the central knows it: how far its connection has come, what was discovered on it, and
which notifications are being switched on or off.
-/
namespace RadioCentral

/-- How far a connection has come, in the order of its life. -/
inductive Phase where
  | idle
  | connecting
  | discovering
  | subscribing
  | negotiating
  | ready
  | disconnecting
  | disconnected
  deriving DecidableEq, Repr, Inhabited

namespace Phase

def all : List Phase :=
  [idle, connecting, discovering, subscribing, negotiating, ready, disconnecting, disconnected]

def name : Phase → String
  | idle => "Idle"
  | connecting => "Connecting"
  | discovering => "DiscoveringServices"
  | subscribing => "SubscribingNotifications"
  | negotiating => "NegotiatingUnitSize"
  | ready => "Ready"
  | disconnecting => "Disconnecting"
  | disconnected => "Disconnected"

def rank : Phase → Nat
  | idle => 0
  | connecting => 1
  | discovering => 2
  | subscribing => 3
  | negotiating => 4
  | ready => 5
  | disconnecting => 6
  | disconnected => 7

def remaining (p : Phase) : Nat := 7 - p.rank

/-- The phases after a connect request and before `ready`. -/
def isEstablishing : Phase → Bool
  | connecting | discovering | subscribing | negotiating => true
  | _ => false

end Phase

structure Peer where
  address : Address
  phase : Phase := .idle
  /-- The characteristics of the wanted service, once it was found. -/
  discovered : Option (List Characteristic) := none
  unitSize : Option UInt16 := none
  handle : Option Handle := none
  /-- The discovered characteristics whose notifications were wanted at that time. -/
  notifyTargets : List Characteristic := []
  /-- The characteristics whose values reach the caller. -/
  subscribed : UuidSet := ∅
  /-- Enable writes without a result so far. -/
  pendingEnable : UuidSet := ∅
  /-- Disable writes without a result so far. -/
  pendingDisable : UuidSet := ∅
  deriving DecidableEq

namespace Peer

def isReady (p : Peer) : Bool := p.phase = .ready

/-- The first discovered characteristic with an identifier. -/
def characteristic? (p : Peer) (uuid : Uuid) : Option Characteristic :=
  p.discovered.bind fun cs => cs.find? fun c => c.uuid = uuid

def notifyTarget? (p : Peer) (uuid : Uuid) : Option Characteristic :=
  p.notifyTargets.find? fun c => c.uuid = uuid

def delivers (p : Peer) (uuid : Uuid) : Bool := decide (uuid ∈ p.subscribed)

end Peer

end RadioCentral
