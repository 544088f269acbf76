import RadioCentral.Peer

/-!
The life of a connection. An event takes a peer to its next state and says what is then to be done;
nothing here touches the radio. Every transition either leaves the phase as it is and asks for
nothing, or moves to a later phase (`Peer.forward_of_taken`).
-/
namespace RadioCentral

inductive PeerEvent where
  /-- An advertisement of the peer was admitted. -/
  | connectRequested
  /-- No route could issue the connect request. -/
  | connectFailed
  | linkUp
  | linkDown
  /-- Discovery could not be started. -/
  | discoveryRefused
  /-- Discovery ended; `none` when the wanted service is absent. -/
  | servicesDiscovered (characteristics : Option (List Characteristic))
  /-- Notifications are on, or there is nothing to wait for. -/
  | enabled (characteristic : Uuid)
  | enableFailed (characteristic : Uuid)
  /-- Negotiation could not be requested. -/
  | negotiationUnavailable
  | unitSizeReported (size : UInt16)
  /-- A disable write came to its end, well or badly. -/
  | disableSettled (characteristic : Uuid)
  /-- A disable write could not be issued. -/
  | disableRefused
  | disconnectRequested
  deriving DecidableEq, Repr

def PeerEvent.name : PeerEvent → String
  | connectRequested => "ConnectRequested"
  | connectFailed => "ConnectFailed"
  | linkUp => "LinkUp"
  | linkDown => "LinkDown"
  | discoveryRefused => "DiscoveryIssueFailed"
  | servicesDiscovered _ => "ServicesDiscovered"
  | enabled _ => "SubscriptionConfirmed"
  | enableFailed _ => "SubscriptionFailed"
  | negotiationUnavailable => "NegotiationUnavailable"
  | unitSizeReported _ => "UnitSizeReported"
  | disableSettled _ => "UnsubscribeSettled"
  | disableRefused => "UnsubscribeIssueFailed"
  | disconnectRequested => "DisconnectRequested"

/-- What is to be done after a transition, in order. -/
inductive Action where
  | pauseScanning
  /-- Scan again once no other attempt is open. -/
  | resumeScanning
  | connect
  | discoverServices
  | subscribe (characteristic : Characteristic)
  | unsubscribe (characteristic : Characteristic)
  | requestUnitSize (size : UInt16)
  | invalidateCache
  | disconnect
  | release
  | forget
  | reportConnected (unitSize : Option UInt16)
  | reportDisconnected
  deriving DecidableEq, Repr

def Action.name : Action → String
  | pauseScanning => "PauseScanning"
  | resumeScanning => "ResumeScanning"
  | connect => "Connect"
  | discoverServices => "DiscoverServices"
  | subscribe _ => "Subscribe"
  | unsubscribe _ => "Unsubscribe"
  | requestUnitSize _ => "RequestUnitSize"
  | invalidateCache => "InvalidateCache"
  | disconnect => "Disconnect"
  | release => "Release"
  | forget => "Forget"
  | reportConnected _ => "ReportConnected"
  | reportDisconnected => "ReportDisconnected"

/-- What is settled for a connection when its services are discovered. -/
structure LinkPolicy where
  notify : UuidSet := ∅
  /-- The unit size to ask for, unless there is to be no negotiation. -/
  unitSize : Option UInt16 := none
  deriving DecidableEq

structure Transition where
  before : Peer
  after : Peer
  actions : List Action
  deriving DecidableEq

structure InvalidTransition where
  address : Address
  phase : Phase
  event : PeerEvent
  deriving DecidableEq, Repr

def InvalidTransition.message (e : InvalidTransition) : String :=
  "Invalid transition for " ++ e.address.text ++ " from " ++ e.phase.name ++ " on event " ++ e.event.name

namespace Peer

/-- What comes of an event, with the peer as it is afterwards: it is taken, and there is something to be
done, or it is refused. -/
inductive Response where
  | taken (result : Peer × List Action)
  | refused (left : Peer)
  deriving DecidableEq

/-- The end of a connection: the handle goes back, the peer is dropped and its end is reported. -/
def finish (p : Peer) : Peer × List Action :=
  ({ p with phase := .disconnected, subscribed := ∅ },
    (if p.handle.isSome then [.release] else []) ++ [.forget, .reportDisconnected, .resumeScanning])

def becomeReady (p : Peer) : Peer × List Action :=
  ({ p with phase := .ready }, [.reportConnected p.unitSize, .resumeScanning])

def beginNegotiation (policy : LinkPolicy) (p : Peer) : Peer × List Action :=
  match policy.unitSize with
  | some size => ({ p with phase := .negotiating }, [.requestUnitSize size])
  | none => p.becomeReady

/-- Switches off every notify target. The end comes once all of them are settled, at once if there is
none; on request the link is taken down as well. -/
def beginTeardown (disconnect : Bool) (p : Peer) : Peer × List Action :=
  let uuids := p.notifyTargets.map (·.uuid)
  let leaving := { p with
    phase := .disconnecting
    pendingEnable := ∅
    pendingDisable := p.pendingDisable.insertAll uuids
    subscribed := p.subscribed.eraseAll uuids }
  let actions := p.notifyTargets.map .unsubscribe ++
    (if disconnect && p.handle.isSome then [.disconnect] else [])
  if leaving.pendingDisable.isEmpty then
    let (gone, more) := leaving.finish
    (gone, actions ++ more)
  else (leaving, actions)

/-- Takes over what was discovered and switches on the notifications that are wanted. -/
def acceptServices (policy : LinkPolicy) (characteristics : List Characteristic) (p : Peer) :
    Peer × List Action :=
  let targets := characteristics.filter fun c => decide (c.uuid ∈ policy.notify)
  let found := { p with discovered := some characteristics, notifyTargets := targets }
  if targets.isEmpty then found.beginNegotiation policy
  else
    let uuids := targets.map (·.uuid)
    ({ found with
        phase := .subscribing
        pendingEnable := p.pendingEnable.insertAll uuids
        subscribed := p.subscribed.insertAll uuids },
      targets.map .subscribe)

/-- Leaves a peer without the wanted service; its end waits for the link to go down. -/
def rejectServices (p : Peer) : Peer × List Action :=
  ({ p with phase := .disconnecting }, [.invalidateCache, .disconnect])

/-- Takes a characteristic off the enable writes waited for; the last one ends the waiting. -/
def confirmEnable (policy : LinkPolicy) (characteristic : Uuid) (p : Peer) : Peer × List Action :=
  let rest := { p with pendingEnable := p.pendingEnable.erase characteristic }
  if characteristic ∈ p.pendingEnable ∧ rest.pendingEnable.isEmpty then rest.beginNegotiation policy
  else (rest, [])

/-- Takes a characteristic off the disable writes waited for; the last one ends the connection. -/
def settleDisable (characteristic : Uuid) (p : Peer) : Peer × List Action :=
  let rest := { p with pendingDisable := p.pendingDisable.erase characteristic }
  if characteristic ∈ p.pendingDisable ∧ rest.pendingDisable.isEmpty then rest.finish
  else (rest, [])

def noteUnitSize (size : UInt16) (p : Peer) : Peer × List Action := ({ p with unitSize := some size }, [])

def during (phase : Phase) (r : Peer × List Action) (p : Peer) : Response :=
  if p.phase = phase then .taken r else .refused p

/-- The end of a connection that has been asked for and is not on its way out yet. -/
def leave (p : Peer) : Response :=
  match p.phase with
  | .connecting | .discovering | .subscribing | .negotiating | .ready => .taken (p.beginTeardown false)
  | .idle | .disconnecting | .disconnected => .refused p

/-- What discovery found; nothing is found where the wanted service is absent or empty. -/
def onServices (policy : LinkPolicy) (found : Option (List Characteristic)) (p : Peer) :
    Peer × List Action :=
  match found.getD [] with
  | [] => p.rejectServices
  | c :: cs => p.acceptServices policy (c :: cs)

/-- A unit size that was negotiated, or that the stack reports at another time. -/
def onUnitSize (size : UInt16) (p : Peer) : Response :=
  match p.phase with
  | .negotiating => .taken (p.noteUnitSize size).1.becomeReady
  | .connecting | .discovering | .subscribing | .ready => .taken (p.noteUnitSize size)
  | .disconnecting => .taken (p, [])
  | .idle | .disconnected => .refused p

/-- Late results for a connection on its way out are taken and change nothing. -/
def react (policy : LinkPolicy) (event : PeerEvent) (p : Peer) : Response :=
  match event with
  | .connectRequested =>
    p.during .idle ({ p with phase := .connecting }, [.pauseScanning, .connect])
  | .connectFailed => p.during .connecting p.finish
  | .linkUp => p.during .connecting ({ p with phase := .discovering }, [.discoverServices])
  | .linkDown =>
    if p.phase = .disconnecting then .taken (if p.pendingDisable.isEmpty then p.finish else (p, []))
    else p.leave
  | .discoveryRefused => p.during .discovering (p.beginTeardown true)
  | .servicesDiscovered found => p.during .discovering (p.onServices policy found)
  | .enabled characteristic =>
    if p.phase = .disconnecting then .taken (p, [])
    else p.during .subscribing (p.confirmEnable policy characteristic)
  | .enableFailed _ =>
    if p.phase = .disconnecting then .taken (p, []) else p.during .subscribing (p.beginTeardown true)
  | .negotiationUnavailable => p.during .negotiating p.becomeReady
  | .unitSizeReported size => p.onUnitSize size
  | .disableSettled characteristic => p.during .disconnecting (p.settleDisable characteristic)
  | .disableRefused => p.during .disconnecting { p with pendingDisable := ∅ }.finish
  | .disconnectRequested => if p.phase = .disconnecting then .taken (p, []) else p.leave

/-- Applies an event and gives the peer back, whether or not the event was accepted. -/
def apply (policy : LinkPolicy) (event : PeerEvent) (p : Peer) :
    Except InvalidTransition Transition × Peer :=
  match p.react policy event with
  | .taken (after, actions) => (.ok ⟨p, after, actions⟩, after)
  | .refused left => (.error ⟨p.address, p.phase, event⟩, left)

theorem unchanged_during {phase : Phase} {r : Peer × List Action} {p q : Peer}
    (h : p.during phase r = .refused q) : q = p := by
  unfold during at h
  split at h <;> cases h
  rfl

theorem unchanged_leave {p q : Peer} (h : p.leave = .refused q) : q = p := by
  unfold leave at h
  split at h <;> cases h <;> rfl

theorem unchanged_onUnitSize {size : UInt16} {p q : Peer} (h : p.onUnitSize size = .refused q) : q = p := by
  unfold onUnitSize at h
  split at h <;> cases h <;> rfl

/-- A refused event leaves the peer as it was. -/
theorem unchanged_of_refused {policy : LinkPolicy} {event : PeerEvent} {p q : Peer}
    (h : p.react policy event = .refused q) : q = p := by
  cases event <;> simp only [react] at h
  case connectRequested | connectFailed | linkUp | discoveryRefused | servicesDiscovered |
      negotiationUnavailable | disableSettled | disableRefused =>
    exact unchanged_during h
  case linkDown | disconnectRequested =>
    split at h
    · cases h
    · exact unchanged_leave h
  case enabled | enableFailed =>
    split at h
    · cases h
    · exact unchanged_during h
  case unitSizeReported => exact unchanged_onUnitSize h

/-- A step keeps the phase and asks for nothing, or moves to a later phase; the address stays. -/
def Forward (p : Peer) (r : Peer × List Action) : Prop :=
  ((r.1.phase = p.phase ∧ r.2 = []) ∨ p.phase.rank < r.1.phase.rank) ∧ r.1.address = p.address

@[simp] theorem phase_finish (p : Peer) : p.finish.1.phase = .disconnected := rfl
@[simp] theorem address_finish (p : Peer) : p.finish.1.address = p.address := rfl

@[simp] theorem phase_becomeReady (p : Peer) : p.becomeReady.1.phase = .ready := rfl
@[simp] theorem address_becomeReady (p : Peer) : p.becomeReady.1.address = p.address := rfl

@[simp] theorem phase_rejectServices (p : Peer) : p.rejectServices.1.phase = .disconnecting := rfl
@[simp] theorem address_rejectServices (p : Peer) : p.rejectServices.1.address = p.address := rfl

theorem rank_beginNegotiation (policy : LinkPolicy) (p : Peer) :
    Phase.subscribing.rank < (p.beginNegotiation policy).1.phase.rank := by
  unfold beginNegotiation
  split <;> simp [Phase.rank]

@[simp] theorem address_beginNegotiation (policy : LinkPolicy) (p : Peer) :
    (p.beginNegotiation policy).1.address = p.address := by
  unfold beginNegotiation
  split <;> rfl

theorem rank_beginTeardown (disconnect : Bool) (p : Peer) :
    Phase.ready.rank < (p.beginTeardown disconnect).1.phase.rank := by
  unfold beginTeardown
  simp only
  split <;> simp [Phase.rank]

@[simp] theorem address_beginTeardown (disconnect : Bool) (p : Peer) :
    (p.beginTeardown disconnect).1.address = p.address := by
  unfold beginTeardown
  simp only
  split <;> rfl

theorem forward_beginTeardown (disconnect : Bool) (p : Peer) (h : p.phase.rank ≤ Phase.ready.rank) :
    p.Forward (p.beginTeardown disconnect) :=
  ⟨Or.inr (Nat.lt_of_le_of_lt h (rank_beginTeardown disconnect p)), address_beginTeardown disconnect p⟩

theorem forward_acceptServices (policy : LinkPolicy) (cs : List Characteristic) (p : Peer)
    (h : p.phase = .discovering) : p.Forward (p.acceptServices policy cs) := by
  unfold acceptServices Forward
  simp only [h]
  split
  · exact ⟨Or.inr (Nat.lt_trans (by decide) (rank_beginNegotiation policy _)),
      address_beginNegotiation policy _⟩
  · exact ⟨Or.inr (by simp [Phase.rank]), rfl⟩

theorem forward_confirmEnable (policy : LinkPolicy) (c : Uuid) (p : Peer)
    (h : p.phase = .subscribing) : p.Forward (p.confirmEnable policy c) := by
  unfold confirmEnable Forward
  simp only [h]
  split
  · exact ⟨Or.inr (rank_beginNegotiation policy _), address_beginNegotiation policy _⟩
  · exact ⟨Or.inl ⟨rfl, rfl⟩, rfl⟩

theorem forward_settleDisable (c : Uuid) (p : Peer) (h : p.phase = .disconnecting) :
    p.Forward (p.settleDisable c) := by
  unfold settleDisable Forward
  simp only [h]
  split
  · exact ⟨Or.inr (by simp [Phase.rank]), rfl⟩
  · exact ⟨Or.inl ⟨rfl, rfl⟩, rfl⟩

theorem forward_noteUnitSize (size : UInt16) (p : Peer) : p.Forward (p.noteUnitSize size) :=
  ⟨Or.inl ⟨rfl, rfl⟩, rfl⟩

theorem forward_self (p : Peer) : p.Forward (p, []) := ⟨Or.inl ⟨rfl, rfl⟩, rfl⟩

theorem forward_onServices (policy : LinkPolicy) (found : Option (List Characteristic)) (p : Peer)
    (h : p.phase = .discovering) : p.Forward (p.onServices policy found) := by
  unfold onServices
  split
  · exact ⟨Or.inr (by simp [h, Phase.rank]), rfl⟩
  · exact forward_acceptServices policy _ p h

theorem forward_during {phase : Phase} {a r : Peer × List Action} {p : Peer}
    (forward : p.phase = phase → p.Forward a) (h : p.during phase a = .taken r) : p.Forward r := by
  unfold during at h
  split at h
  · rename_i now
    cases h
    exact forward now
  · cases h

theorem forward_leave {p : Peer} {r : Peer × List Action} (h : p.leave = .taken r) : p.Forward r := by
  unfold leave at h
  split at h <;> cases h <;> rename_i phase <;>
    exact forward_beginTeardown false p (by simp [phase, Phase.rank])

theorem forward_onUnitSize {size : UInt16} {p : Peer} {r : Peer × List Action}
    (h : p.onUnitSize size = .taken r) : p.Forward r := by
  unfold onUnitSize at h
  split at h <;> rename_i phase <;> cases h
  · exact ⟨Or.inr (by simp [phase, Phase.rank]), rfl⟩
  · exact forward_noteUnitSize size p
  · exact forward_noteUnitSize size p
  · exact forward_noteUnitSize size p
  · exact forward_noteUnitSize size p
  · exact forward_self p

theorem forward_of_taken {policy : LinkPolicy} {event : PeerEvent} {p : Peer}
    {r : Peer × List Action} (h : p.react policy event = .taken r) : p.Forward r := by
  cases event <;> simp only [react] at h
  case connectRequested =>
    exact forward_during (fun phase => ⟨Or.inr (by simp [phase, Phase.rank]), rfl⟩) h
  case connectFailed =>
    exact forward_during (fun phase => ⟨Or.inr (by simp [phase, Phase.rank]), address_finish p⟩) h
  case linkUp =>
    exact forward_during (fun phase => ⟨Or.inr (by simp [phase, Phase.rank]), rfl⟩) h
  case linkDown =>
    split at h
    · rename_i phase
      cases h
      split
      · exact ⟨Or.inr (by simp [phase, Phase.rank]), address_finish p⟩
      · exact forward_self p
    · exact forward_leave h
  case discoveryRefused =>
    exact forward_during (fun phase => forward_beginTeardown true p (by simp [phase, Phase.rank])) h
  case servicesDiscovered found =>
    exact forward_during (forward_onServices policy found p) h
  case enabled c =>
    split at h
    · cases h
      exact forward_self p
    · exact forward_during (forward_confirmEnable policy c p) h
  case enableFailed =>
    split at h
    · cases h
      exact forward_self p
    · exact forward_during (fun phase => forward_beginTeardown true p (by simp [phase, Phase.rank])) h
  case negotiationUnavailable =>
    exact forward_during (fun phase => ⟨Or.inr (by simp [phase, Phase.rank]), rfl⟩) h
  case unitSizeReported size => exact forward_onUnitSize h
  case disableSettled c => exact forward_during (forward_settleDisable c p) h
  case disableRefused =>
    exact forward_during (fun phase => ⟨Or.inr (by simp [phase, Phase.rank]), rfl⟩) h
  case disconnectRequested =>
    split at h
    · cases h
      exact forward_self p
    · exact forward_leave h

theorem apply_of_taken {policy : LinkPolicy} {event : PeerEvent} {p q : Peer} {actions : List Action}
    (h : p.react policy event = .taken (q, actions)) :
    p.apply policy event = (.ok ⟨p, q, actions⟩, q) := by
  simp only [apply, h]

theorem taken_of_accepted {policy : LinkPolicy} {event : PeerEvent} {p : Peer} {t : Transition}
    (accepted : (p.apply policy event).1 = .ok t) :
    p.react policy event = .taken (t.after, t.actions) ∧ (p.apply policy event).2 = t.after := by
  unfold apply at accepted ⊢
  cases answer : p.react policy event with
  | taken r =>
    rw [answer] at accepted
    obtain rfl := Except.ok.inj accepted
    exact ⟨rfl, rfl⟩
  | refused q =>
    rw [answer] at accepted
    cases accepted

theorem apply_of_refused {policy : LinkPolicy} {event : PeerEvent} {p : Peer}
    (h : p.react policy event = .refused p) :
    p.apply policy event = (.error ⟨p.address, p.phase, event⟩, p) := by
  simp only [apply, h]

end Peer

end RadioCentral
