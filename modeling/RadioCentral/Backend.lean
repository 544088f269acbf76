import RadioCentral.Backend.Job
import RadioCentral.Backend.Link

/-!
A radio on top of hardware that takes its time. An accepted request leaves a job behind; what comes of
the job is told by a radio event. Jobs, the reader of the adapter's events and the readers of the
links' values are tasks of one thread: they are run in the order in which they became ready, each until
it waits for the hardware.
-/
namespace RadioCentral

inductive AdapterEvent where
  /-- The device was seen, or something about it changed. -/
  | seen (device : Address)
  | connected (device : Address)
  | disconnected (device : Address)
  deriving DecidableEq, Repr

inductive Waiter where
  | job (job : Job)
  /-- The reader of the adapter's events, for what is said of a device. -/
  | reader (device : Address)
  /-- The one who is opening the adapter. -/
  | opener
  deriving DecidableEq, Repr

inductive Task where
  | start (job : Job)
  /-- Goes on after a call, which failed or not. -/
  | resume (waiter : Waiter) (failure : Option Failure)
  | deliver (handle : Handle)
  | read
  /-- Wakes the one who handles radio events. -/
  | attend
  deriving DecidableEq, Repr

/-- A call that stays open. -/
structure Held where
  place : Address
  kind : CallKind
  waiter : Waiter
  deriving DecidableEq, Repr

/-- What the reader of the adapter's events is doing. -/
inductive Reader where
  | idle
  /-- It waits for a device's properties. -/
  | waiting
  | stopped
  deriving DecidableEq, Repr

structure Backend where
  hardware : Hardware
  known : List Address := []
  links : LinkTable := []
  nextHandle : Nat := 1
  reader : Reader := .idle
  /-- Adapter events not yet read, oldest first. -/
  inbox : List AdapterEvent := []
  inboxOpen : Bool := true
  /-- Tasks that can go on, in the order in which they will. -/
  ready : List Task := []
  /-- Calls that stay open, oldest first. -/
  held : List Held := []
  /-- Radio events sent and not yet taken, oldest first. -/
  events : List RadioEvent := []
  /-- Whether radio events are taken by anybody. -/
  listening : Bool := true
  /-- Whether the one who takes them waits to be woken. -/
  attended : Bool := false
  /-- Answer to the one who is opening the adapter. -/
  openerAnswer : Option (Option Failure) := none

namespace Backend

def wake (t : Task) (b : Backend) : Backend :=
  if t ∈ b.ready then b else { b with ready := b.ready ++ [t] }

def spawn (job : Job) (b : Backend) : Backend := { b with ready := b.ready ++ [.start job] }

/-- Sends a radio event; nobody hears it once the stream is dropped. -/
def send (event : RadioEvent) (b : Backend) : Backend :=
  if b.listening then
    let b := { b with events := b.events ++ [event] }
    if b.attended then b.wake .attend else b
  else b

def takeEvents (b : Backend) : List RadioEvent × Backend := (b.events, { b with events := [] })

/-- Listens to the values of a link, if it is still there. Nothing comes from a device that is not. -/
def openStream (h : Handle) (device : Address) (b : Backend) : Backend :=
  if b.links.isOpen h then
    let stream : Notifications := { isOpen := (b.hardware.device? device).isSome }
    { b with links := b.links.modify h fun l => { l with notifications := some stream } }.wake
      (.deliver h)
  else b

/-- Announces a connection, unless its handle was released meanwhile. -/
def announce (h : Handle) (device : Address) (b : Backend) : Option Job × Backend :=
  if b.links.isOpen h then (none, b.send (.connected h)) else (some (.closeOrphan device), b)

/-- What the answer to a job's call leads to: events, and the job that is left. -/
def answer (job : Job) (success : Bool) (b : Backend) : Option Job × Backend :=
  match job with
  | .connect h device =>
    if success then
      (some (if b.links.isOpen h then .listen h device else .closeOrphan device), b)
    else (none, b.send (.disconnected h))
  | .listen h device => (if success then b.openStream h device else b).announce h device
  | .discover h device =>
    (none, b.send (.servicesDiscovered h (if success then b.hardware.services device else [])))
  | .writeDescriptor h _ d value => (none, b.send (.descriptorWritten h d.characteristic value success))
  | .write h _ target value _ =>
    (none, b.send (.characteristicWritten h target.uuid value
      (if success then writeSucceeded else writeFailed)))
  | .disconnect h _ => (none, b.send (.disconnected h))
  | .checkReleased device =>
    (if success && b.hardware.isConnected device then some (.closeReleased device) else none, b)
  | .startScan _ | .stopScan | .closeOrphan _ | .closeReleased _ => (none, b)

theorem calls_answer {job rest : Job} {success : Bool} {b : Backend}
    (h : (b.answer job success).1 = some rest) : rest.calls < job.calls := by
  cases job <;> simp only [answer, announce] at h
  case connect =>
    split at h
    · cases h; split <;> simp [Job.calls]
    · cases h
  case listen =>
    split at h <;> split at h <;> cases h <;> simp [Job.calls]
  case checkReleased =>
    split at h <;> cases h
    simp [Job.calls]
  all_goals cases h

/-- Makes a call: it is noted, and its outcome is looked up. A call that stays open answers nothing. -/
def make (call : HardwareCall) (waiter : Waiter) (b : Backend) : Option Bool × Backend :=
  let b := { b with hardware := b.hardware.note call }
  match b.hardware.outcome call with
  | .succeed => (some true, { b with hardware := b.hardware.takeEffect call })
  | .fail _ => (some false, b)
  | .hold => (none, { b with held := b.held ++ [⟨call.place, call.kind, waiter⟩] })

def issue (job : Job) (b : Backend) : Option Bool × Backend :=
  match job.next b.hardware with
  | .settled success => (some success, b)
  | .call call => b.make call (.job job)

/-- Runs a job until it waits or is done; `success` is the answer it has been waiting for. -/
def run (job : Job) (success : Option Bool) (b : Backend) : Backend :=
  match success with
  | none =>
    match b.issue job with
    | (some success, b) => run job (some success) b
    | (none, b) => b
  | some success =>
    match _h : b.answer job success with
    | (some rest, b) => run rest none b
    | (none, b) => b
termination_by (job.calls, if success.isNone then 1 else 0)
decreasing_by
  · exact Prod.Lex.right _ (by simp)
  · exact Prod.Lex.left _ _ (calls_answer (congrArg Prod.fst _h))

/-- Tells of an advertisement, if the adapter says anything of the device, and remembers the device. -/
def reportSighting (device : Address) (b : Backend) : Backend :=
  match (b.hardware.device? device).bind (·.sighting) with
  | some sighting =>
    { b with known := if device ∈ b.known then b.known else b.known ++ [device] }.send
      (.advertisement device sighting.payload)
  | none => b

/-- Handles an adapter event; false when the reader has to wait. -/
def handle (event : AdapterEvent) (b : Backend) : Bool × Backend :=
  match event with
  | .connected _ => (true, b)
  | .disconnected device =>
    (true, (b.links.handlesTo device).foldl (fun b h => b.send (.disconnected h)) b)
  | .seen device =>
    match b.hardware.device? device with
    | none => (true, b)
    | some d =>
      match d.script.outcome .properties with
      | .succeed => (true, b.reportSighting device)
      | .fail _ => (true, b)
      | .hold => (false, { b with
          reader := .waiting
          held := b.held ++ [⟨device, .properties, .reader device⟩] })

def readAll : List AdapterEvent → Backend → Backend
  | [], b => { b with inbox := [] }
  | event :: rest, b =>
    match b.handle event with
    | (true, b) => readAll rest b
    | (false, b) => { b with inbox := rest }

def read (b : Backend) : Backend := if b.reader = .idle then readAll b.inbox b else b

/-- Delivers the values of a link that are wanted. -/
def deliver (h : Handle) (b : Backend) : Backend :=
  match b.links.get? h with
  | none => b
  | some link =>
    match link.notifications with
    | none => b
    | some stream =>
      let b := { b with links := b.links.modify h fun l =>
        { l with notifications := some { stream with values := [] } } }
      let wanted := stream.values.filter fun value => decide (value.1 ∈ link.notifying)
      wanted.foldl (fun b value => b.send (.characteristicChanged h value.1 value.2)) b

def resume (waiter : Waiter) (failure : Option Failure) (b : Backend) : Backend :=
  match waiter with
  | .job job => b.run job (some failure.isNone)
  | .reader device =>
    if b.reader = .waiting then
      let b := { b with reader := .idle }
      (if failure.isNone then b.reportSighting device else b).read
    else b
  | .opener => { b with openerAnswer := some failure }

def runTask (t : Task) (b : Backend) : Backend :=
  match t with
  | .start job => b.run job none
  | .resume waiter failure => b.resume waiter failure
  | .deliver h => b.deliver h
  | .read => b.read
  | .attend => b

/-- Runs the ready task at a place, out of turn if it is not the first. -/
def runAt (i : Nat) (b : Backend) : Backend :=
  match b.ready[i]? with
  | some t => runTask t { b with ready := b.ready.eraseIdx i }
  | none => b

def pass (b : Backend) : Backend :=
  b.ready.foldl (fun b t => b.runTask t) { b with ready := [] }

/-- Runs tasks until none is ready. A job makes readers of values ready, a reader only the one who
attends to the events, and he does nothing here, so that three passes are enough. -/
def settle (b : Backend) : Backend := b.pass.pass.pass

end Backend

end RadioCentral
