import RadioCentral.Advert
import RadioCentral.Central.Settle

/-!
What can be done with a central: the calls its caller makes, the events of the radio, and taking
queued connection attempts up. `step` is the one place where all of them meet; a run is a fold of it.
-/
namespace RadioCentral

inductive Operation where
  | start
  | stop (order : Registry.Order)
  | reset (order : Registry.Order)
  | disconnect (address : Address)
  | write (data : Bytes) (characteristic : Uuid) (address : Address)
  | registerNotify (characteristic : Uuid)
  | setNonce (nonce : Int32)
  | setGovernor (governor : Address → Bool)
  | radioEvent (event : RadioEvent)
  /-- Takes up a connection attempt, whether or not it was queued. -/
  | initiate (address : Address)
  /-- Takes the oldest attempt off the queue and takes it up. -/
  | dispatchNext
  | claimDispatch
  | dropDispatch

namespace World

variable {σ : Type}

def start (R : Radio σ) (w : World σ) : World σ := w.scan (Scanner.start R)

def disconnect (R : Radio σ) (a : Address) (w : World σ) : World σ := w.drive R a .disconnectRequested

def stop (R : Radio σ) (order : Registry.Order) (w : World σ) : World σ :=
  let w := w.scan (Scanner.stop R)
  (w.central.registry.addresses order).foldl (fun w a => w.disconnect R a) w

/-- Forgets every peer at once. The handles go back without any further traffic. -/
def reset (R : Radio σ) (order : Registry.Order) (w : World σ) : World σ :=
  let (handles, registry) := w.central.registry.clear order
  let w := { w with central := { w.central with registry, scanner := w.central.scanner.reset } }
  handles.foldl (fun w h => (w.ask R (.release h)).2) w

def registerNotify (u : Uuid) (w : World σ) : World σ :=
  { w with central := { w.central with notify := w.central.notify.insert u } }

def setNonce (nonce : Int32) (w : World σ) : World σ := { w with central := { w.central with nonce } }

def setGovernor (governor : Address → Bool) (w : World σ) : World σ :=
  { w with central := { w.central with governor := some governor } }

/-- Issues an acknowledged write. A characteristic without the write property is the caller's mistake;
for an unknown peer, an unknown characteristic or a peer that is not ready the answer is no. -/
def write (R : Radio σ) (data : Bytes) (characteristic : Uuid) (a : Address) (w : World σ) :
    Except CentralError Bool × World σ :=
  match w.central.registry.get? a with
  | none => (.ok false, w)
  | some p =>
    match p.characteristic? characteristic with
    | none => (.ok false, w)
    | some target =>
      if ¬ target.isWritable then (.error (.characteristicNotWritable characteristic), w)
      else
        match p.handle with
        | some h =>
          if p.isReady then
            let (issued, w) := w.ask R (.write h target.uuid data .withResponse)
            (.ok issued, w)
          else (.ok false, w)
        | none => (.ok false, w)

/-- Whether an advertisement is to be answered by connecting. -/
def admits (w : World σ) (a : Address) (data : Bytes) : Bool :=
  w.central.scanner.requested &&
    (match (Advert.parse data).verdict w.central.settings.service w.central.nonce with
      | .connect _ => true
      | _ => false) &&
    !w.central.registry.contains a && w.central.allows a

def onAdvertisement (R : Radio σ) (a : Address) (data : Bytes) (w : World σ) : World σ :=
  if w.admits a data then
    let (_, registry) := w.central.registry.insertConnecting a
    let w := { w with central := { w.central with registry } }
    let (steps, w) := w.transition R a .connectRequested
    w.settle R a steps []
  else w

/-- Hands an event to the peer that holds the handle; an unknown handle is ignored. -/
def onHandle (R : Radio σ) (h : Handle) (event : PeerEvent) (w : World σ) : World σ :=
  match w.central.registry.addressFor? h with
  | some a => w.drive R a event
  | none => w

/-- The characteristics of the first service with the wanted identifier. -/
def wantedCharacteristics (service : Uuid) (services : List Service) : Option (List Characteristic) :=
  (services.find? fun s => s.uuid = service).map (·.characteristics)

def onValue (h : Handle) (characteristic : Uuid) (value : Bytes) (w : World σ) : World σ :=
  match w.central.registry.addressFor? h with
  | none => w
  | some a =>
    match w.central.registry.get? a with
    | some p => if p.delivers characteristic then w.report (.dataReceived a value) else w
    | none => w

def onWritten (h : Handle) (characteristic : Uuid) (value : Bytes) (status : UInt8) (w : World σ) :
    World σ :=
  match w.central.registry.addressFor? h with
  | none => w
  | some a =>
    let error := if status = writeSucceeded then none else some (.writeRejected a characteristic status)
    w.report (.dataSent a value error)

def onRadioEvent (R : Radio σ) (event : RadioEvent) (w : World σ) : World σ :=
  match event with
  | .advertisement a data => w.onAdvertisement R a data
  | .connected h => w.onHandle R h .linkUp
  | .disconnected h => w.onHandle R h .linkDown
  | .servicesDiscovered h services =>
    w.onHandle R h (.servicesDiscovered (wantedCharacteristics w.central.settings.service services))
  | .descriptorWritten h characteristic value success =>
    match Subscription.resultEvent? characteristic value success with
    | some event => w.onHandle R h event
    | none => w
  | .unitSizeChanged h size _ => w.onHandle R h (.unitSizeReported size)
  | .characteristicChanged h characteristic value => w.onValue h characteristic value
  | .characteristicWritten h characteristic value status => w.onWritten h characteristic value status

def awaitsConnect (w : World σ) (a : Address) : Bool :=
  match w.central.registry.get? a with
  | some p => p.phase = .connecting && p.handle.isNone
  | none => false

/-- Gives a peer the handle of its connection. If there is no peer to take it, the link goes down and the
handle back. -/
def handOver (R : Radio σ) (a : Address) (h : Handle) (w : World σ) : World σ :=
  let (attached, registry) := w.central.registry.attach a h
  let w := { w with central := { w.central with registry } }
  if attached then w else (((w.ask R (.disconnect h)).2).ask R (.release h)).2

/-- Issues the connect request of an attempt. Entries left over from a peer that is gone, or that has
its handle, are passed over. -/
def initiate (R : Radio σ) (a : Address) (w : World σ) : World σ :=
  if w.awaitsConnect a then
    match R.dial w.central.settings.routes a w.radio with
    | (.ok h, radio) => { w with radio }.handOver R a h
    | (.error _, radio) => { w with radio }.drive R a .connectFailed
  else w

def takeAttempt (w : World σ) : Option Address × World σ :=
  match w.central.dispatch.queue with
  | a :: queue =>
    (some a, { w with central := { w.central with dispatch := { w.central.dispatch with queue } } })
  | [] => (none, w)

/-- Takes up attempts, oldest first and at most so many, and gives their addresses. -/
def dispatchSome (R : Radio σ) : (most : Nat) → World σ → List Address × World σ
  | 0, w => ([], w)
  | most + 1, w =>
    match w.takeAttempt with
    | (some a, w) =>
      let (more, w) := dispatchSome R most (w.initiate R a)
      (a :: more, w)
    | (none, w) => ([], w)

def dispatchNext (R : Radio σ) (w : World σ) : World σ :=
  match w.takeAttempt with
  | (some a, w) => w.initiate R a
  | (none, w) => w

def claimDispatch (w : World σ) : Bool × World σ :=
  let (taken, dispatch) := w.central.dispatch.claim
  (taken, { w with central := { w.central with dispatch } })

def dropDispatch (w : World σ) : World σ :=
  { w with central := { w.central with dispatch := w.central.dispatch.drop } }

def dispatchAll (R : Radio σ) (w : World σ) : World σ :=
  let queue := w.central.dispatch.queue
  let emptied := { w.central.dispatch with queue := [] }
  queue.foldl (fun w a => w.initiate R a) { w with central := { w.central with dispatch := emptied } }

/-- Handles events in order and then takes up the attempts they led to. -/
def serve (R : Radio σ) (events : List RadioEvent) (w : World σ) : World σ :=
  (events.foldl (fun w event => w.onRadioEvent R event) w).dispatchAll R

def takeReports (w : World σ) : List Report × World σ :=
  (w.central.reports, { w with central := { w.central with reports := [] } })

def step (R : Radio σ) (w : World σ) : Operation → World σ
  | .start => w.start R
  | .stop order => w.stop R order
  | .reset order => w.reset R order
  | .disconnect a => w.disconnect R a
  | .write data characteristic a => (w.write R data characteristic a).2
  | .registerNotify u => w.registerNotify u
  | .setNonce nonce => w.setNonce nonce
  | .setGovernor governor => w.setGovernor governor
  | .radioEvent event => w.onRadioEvent R event
  | .initiate a => w.initiate R a
  | .dispatchNext => w.dispatchNext R
  | .claimDispatch => w.claimDispatch.2
  | .dropDispatch => w.dropDispatch

def run (R : Radio σ) (operations : List Operation) (w : World σ) : World σ :=
  operations.foldl (step R) w

end World

end RadioCentral
