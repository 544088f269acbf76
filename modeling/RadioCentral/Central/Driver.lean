import RadioCentral.Central.Operation

/-!
A central with a driver, the one place where radio events and queued attempts are handled in order.
The driver owns the receiver of the queue; it ends when the radio's event stream does.
-/
namespace RadioCentral

structure Driven (σ : Type) where
  world : World σ
  /-- Radio events sent and not yet handled, oldest first. -/
  inbox : List RadioEvent := []
  streamOpen : Bool := true
  running : Bool := true

namespace Driven

variable {σ : Type}

/-- Attaches a driver to a central; a central takes one driver in its life. -/
def attach (w : World σ) : Except CentralError Unit × World σ :=
  let (claimed, w) := w.claimDispatch
  (if claimed then .ok () else .error .driverAlreadyAttached, w)

def ofWorld (w : World σ) : Driven σ := { world := w.claimDispatch.2 }

/-- Sends a radio event; refused once the stream is closed. -/
def send (event : RadioEvent) (d : Driven σ) : Bool × Driven σ :=
  if d.streamOpen && d.running then (true, { d with inbox := d.inbox ++ [event] }) else (false, d)

def close (d : Driven σ) : Driven σ := { d with streamOpen := false }

/-- Lets the driver work until it has nothing left to do. On a closed stream it then ends, and its
receiver goes with it. -/
def settle (R : Radio σ) (d : Driven σ) : Driven σ :=
  if d.running then
    let world := d.world.serve R d.inbox
    if d.streamOpen then { d with world, inbox := [] }
    else { d with world := world.dropDispatch, inbox := [], running := false }
  else d

end Driven

end RadioCentral
