import RadioCentral.Command.Error
import RadioCentral.Hardware.Opening

/-!
What the program does in the foreground while its central works: it opens the adapter, and then waits,
for reports or for a moment in time. Times are milliseconds on the program's clock.
-/
namespace RadioCentral

inductive Errand where
  /-- Shows every report, for so many seconds or until interrupted. -/
  | watch (seconds : Option UInt64)
  /-- Writes once to a peer when it is ready. -/
  | send (recipient : Address) (characteristic : Uuid) (data : Bytes)
  /-- Leaves the central to others. -/
  | serve
  deriving DecidableEq, Repr

inductive Conclusion where
  | finished
  | ready (unitSize : Option UInt16)
  | failed (error : CommandError)
  deriving DecidableEq, Repr

inductive Activity where
  | idle
  /-- Waits for the answer to a stage of opening the adapter. -/
  | opening (stage : Opening) (errand : Errand)
  /-- Shows reports, until the deadline if there is one. -/
  | watching (deadline : Option Nat)
  /-- Waits until a peer is ready; then writes to it if there is something to write. -/
  | awaiting (address : Address) (deadline : Nat) (write : Option (Uuid × Bytes))
  /-- Waits until the peer has answered a write of so many bytes. -/
  | confirming (address : Address) (size : Nat) (deadline : Nat)
  /-- Shuts down: waits until every peer is gone. The line is shown at the end. -/
  | draining (deadline : Nat) (line : Option String) (conclusion : Conclusion)
  | done (conclusion : Conclusion)
  deriving DecidableEq, Repr

namespace Activity

def deadline? : Activity → Option Nat
  | watching deadline => deadline
  | awaiting _ deadline _ | confirming _ _ deadline | draining deadline .. => some deadline
  | idle | opening .. | done _ => none

def conclusion? : Activity → Option Conclusion
  | done conclusion => some conclusion
  | _ => none

end Activity

/-- For how long the peers may take to go when the program shuts down. -/
def shutdownGrace : Nat := 2000

/-- The moment so many seconds from now. A time that no clock can tell is thirty years away. -/
def momentAfter (now : Nat) (seconds : UInt64) : Nat :=
  now + 1000 * (if seconds < 0x8000000000000000 then seconds.toNat else 30 * 365 * 24 * 60 * 60)

end RadioCentral
