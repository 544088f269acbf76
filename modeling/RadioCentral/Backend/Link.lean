import RadioCentral.Radio
import RadioCentral.Uuid.Set

/-!
The open links of a radio, by handle. A handle that is not in the table has been released, or was never
given out.
-/
namespace RadioCentral

structure Notifications where
  /-- Values not delivered yet, oldest first. -/
  values : List (Uuid × Bytes) := []
  isOpen : Bool := true
  deriving DecidableEq, Repr

structure Link where
  handle : Handle
  device : Address
  notifying : UuidSet := ∅
  notifications : Option Notifications := none
  deriving DecidableEq

abbrev LinkTable := List Link

namespace LinkTable

def get? (t : LinkTable) (h : Handle) : Option Link := t.find? fun l => l.handle = h

def isOpen (t : LinkTable) (h : Handle) : Bool := (t.get? h).isSome

def device? (t : LinkTable) (h : Handle) : Option Address := (t.get? h).map (·.device)

def modify (t : LinkTable) (h : Handle) (f : Link → Link) : LinkTable :=
  t.map fun l => if l.handle = h then f l else l

/-- Closes a link; its stream of values goes with it. -/
def close (t : LinkTable) (h : Handle) : LinkTable := t.filter fun l => l.handle ≠ h

def handlesTo (t : LinkTable) (device : Address) : List Handle :=
  (t.filter fun l => l.device = device).map (·.handle)

/-- Switches delivery of a characteristic; refused for a handle without a link. -/
def setNotifying (t : LinkTable) (h : Handle) (c : Uuid) (enable : Bool) : Bool × LinkTable :=
  (t.isOpen h, t.modify h fun l =>
    { l with notifying := if enable then l.notifying.insert c else l.notifying.erase c })

def put (t : LinkTable) (device : Address) (value : Uuid × Bytes) : LinkTable :=
  t.map fun l =>
    if l.device = device then
      { l with notifications := l.notifications.map fun n =>
          if n.isOpen then { n with values := n.values ++ [value] } else n }
    else l

/-- Ends the streams of a device. What they hold is still delivered. -/
def endStreams (t : LinkTable) (device : Address) : LinkTable :=
  t.map fun l =>
    if l.device = device then
      { l with notifications := l.notifications.map fun n => { n with isOpen := false } }
    else l

end LinkTable

end RadioCentral
