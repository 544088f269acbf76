import RadioCentral.Peer.Lifecycle

/-!
The moves of a peer, written out once. An event is refused, or the peer goes on (`Peer.Proceeds`), or
its connection ends (`Peer.Ends`); later proofs go by these cases and do not open the transition
function again.
-/
namespace RadioCentral.Peer

def leaving (p : Peer) : Peer :=
  { p with
    phase := .disconnecting
    pendingEnable := ∅
    pendingDisable := p.pendingDisable.insertAll (p.notifyTargets.map (·.uuid))
    subscribed := p.subscribed.eraseAll (p.notifyTargets.map (·.uuid)) }

def leavingActions (disconnect : Bool) (p : Peer) : List Action :=
  p.notifyTargets.map .unsubscribe ++ if disconnect && p.handle.isSome then [.disconnect] else []

theorem beginTeardown_eq (disconnect : Bool) (p : Peer) :
    p.beginTeardown disconnect =
      if p.leaving.pendingDisable.isEmpty then
        (p.leaving.finish.1, p.leavingActions disconnect ++ p.finish.2)
      else (p.leaving, p.leavingActions disconnect) := rfl

def wanted (policy : LinkPolicy) (cs : List Characteristic) : List Characteristic :=
  cs.filter fun c => decide (c.uuid ∈ policy.notify)

def found (policy : LinkPolicy) (cs : List Characteristic) (p : Peer) : Peer :=
  { p with discovered := some cs, notifyTargets := wanted policy cs }

def subscribing (p : Peer) : Peer :=
  { p with
    phase := .subscribing
    pendingEnable := p.pendingEnable.insertAll (p.notifyTargets.map (·.uuid))
    subscribed := p.subscribed.insertAll (p.notifyTargets.map (·.uuid)) }

/-- The events that begin the teardown of a live connection, and whether it takes the link down. -/
inductive Leaves (p : Peer) : PeerEvent → Bool → Prop where
  | linkDown (live : p.phase.isEstablishing ∨ p.phase = .ready) : Leaves p .linkDown false
  | requested (live : p.phase.isEstablishing ∨ p.phase = .ready) : Leaves p .disconnectRequested false
  | undiscovered (phase : p.phase = .discovering) : Leaves p .discoveryRefused true
  | unsubscribed {u : Uuid} (phase : p.phase = .subscribing) : Leaves p (.enableFailed u) true

/-- The events after which no notification is waited for, and the peer they leave. -/
inductive Subscribed (policy : LinkPolicy) (p : Peer) : PeerEvent → Peer → Prop where
  | nothingWanted {cs : List Characteristic} (phase : p.phase = .discovering) (some : cs ≠ [])
      (none : wanted policy cs = []) : Subscribed policy p (.servicesDiscovered cs) (p.found policy cs)
  | lastEnabled {u : Uuid} (phase : p.phase = .subscribing) (pending : u ∈ p.pendingEnable)
      (last : (p.pendingEnable.erase u).isEmpty) :
      Subscribed policy p (.enabled u) { p with pendingEnable := p.pendingEnable.erase u }

/-- The events a connection on its way out has no use for. -/
inductive Late (p : Peer) : PeerEvent → Prop where
  | requested : Late p .disconnectRequested
  | enabled {u : Uuid} : Late p (.enabled u)
  | enableFailed {u : Uuid} : Late p (.enableFailed u)
  | unitSize {size : UInt16} : Late p (.unitSizeReported size)
  | linkDown (pending : p.pendingDisable.isEmpty = false) : Late p .linkDown

inductive Proceeds (policy : LinkPolicy) (p : Peer) : PeerEvent → Peer → List Action → Prop where
  | request (phase : p.phase = .idle) :
      Proceeds policy p .connectRequested { p with phase := .connecting } [.pauseScanning, .connect]
  | linkUp (phase : p.phase = .connecting) :
      Proceeds policy p .linkUp { p with phase := .discovering } [.discoverServices]
  | subscribe {cs : List Characteristic} (phase : p.phase = .discovering)
      (targets : wanted policy cs ≠ []) :
      Proceeds policy p (.servicesDiscovered cs) (p.found policy cs).subscribing
        ((wanted policy cs).map .subscribe)
  | reject {cs : Option (List Characteristic)} (phase : p.phase = .discovering)
      (nothing : cs.getD [] = []) :
      Proceeds policy p (.servicesDiscovered cs) { p with phase := .disconnecting }
        [.invalidateCache, .disconnect]
  | negotiate {event : PeerEvent} {q : Peer} {size : UInt16} (done : p.Subscribed policy event q)
      (wants : policy.unitSize = some size) :
      Proceeds policy p event { q with phase := .negotiating } [.requestUnitSize size]
  | ready {event : PeerEvent} {q : Peer} (done : p.Subscribed policy event q)
      (wants : policy.unitSize = none) :
      Proceeds policy p event { q with phase := .ready } [.reportConnected q.unitSize, .resumeScanning]
  | negotiated {size : UInt16} (phase : p.phase = .negotiating) :
      Proceeds policy p (.unitSizeReported size) { p with phase := .ready, unitSize := some size }
        [.reportConnected (some size), .resumeScanning]
  | unnegotiated (phase : p.phase = .negotiating) :
      Proceeds policy p .negotiationUnavailable { p with phase := .ready }
        [.reportConnected p.unitSize, .resumeScanning]
  | leave {event : PeerEvent} {disconnect : Bool} (leaves : p.Leaves event disconnect)
      (pending : p.leaving.pendingDisable.isEmpty = false) :
      Proceeds policy p event p.leaving (p.leavingActions disconnect)
  | note {size : UInt16} (phase : p.phase = .connecting ∨ p.phase = .discovering ∨
        p.phase = .subscribing ∨ p.phase = .ready) :
      Proceeds policy p (.unitSizeReported size) { p with unitSize := some size } []
  | enabled {u : Uuid} (phase : p.phase = .subscribing)
      (more : u ∈ p.pendingEnable → (p.pendingEnable.erase u).isEmpty = false) :
      Proceeds policy p (.enabled u) { p with pendingEnable := p.pendingEnable.erase u } []
  | settled {u : Uuid} (phase : p.phase = .disconnecting)
      (more : u ∈ p.pendingDisable → (p.pendingDisable.erase u).isEmpty = false) :
      Proceeds policy p (.disableSettled u) { p with pendingDisable := p.pendingDisable.erase u } []
  | late {event : PeerEvent} (phase : p.phase = .disconnecting) (late : p.Late event) :
      Proceeds policy p event p []

/-- The moves that end a connection, and what is asked for before its handle goes back. -/
inductive Ends (p : Peer) : PeerEvent → List Action → Prop where
  | connectFailed (phase : p.phase = .connecting) : Ends p .connectFailed []
  | leave {event : PeerEvent} {disconnect : Bool} (leaves : p.Leaves event disconnect)
      (settled : p.leaving.pendingDisable.isEmpty) : Ends p event (p.leavingActions disconnect)
  | linkDown (phase : p.phase = .disconnecting) (settled : p.pendingDisable.isEmpty) :
      Ends p .linkDown []
  | lastSettled {u : Uuid} (phase : p.phase = .disconnecting) (pending : u ∈ p.pendingDisable)
      (last : (p.pendingDisable.erase u).isEmpty) : Ends p (.disableSettled u) []
  | disableRefused (phase : p.phase = .disconnecting) : Ends p .disableRefused []

/-- What a transition amounts to: the peer goes on, or its connection ends. -/
def Moves (policy : LinkPolicy) (p : Peer) (event : PeerEvent) (r : Peer × List Action) : Prop :=
  p.Proceeds policy event r.1 r.2 ∨
    ∃ before, p.Ends event before ∧ r.2 = before ++ p.finish.2 ∧
      r.1.phase = .disconnected ∧ r.1.address = p.address ∧ r.1.handle = p.handle

theorem moves_of_during {policy : LinkPolicy} {event : PeerEvent} {phase : Phase}
    {a r : Peer × List Action} {p : Peer} (h : p.during phase a = .taken r)
    (ha : p.phase = phase → p.Moves policy event a) : p.Moves policy event r := by
  unfold during at h
  split at h
  · rename_i now
    cases h
    exact ha now
  · cases h

theorem moves_beginTeardown {policy : LinkPolicy} {event : PeerEvent} {disconnect : Bool} {p : Peer}
    (leaves : p.Leaves event disconnect) : p.Moves policy event (p.beginTeardown disconnect) := by
  rw [beginTeardown_eq]
  by_cases settled : p.leaving.pendingDisable.isEmpty
  · rw [if_pos settled]
    exact Or.inr ⟨_, .leave leaves settled, rfl, rfl, rfl, rfl⟩
  · rw [if_neg settled]
    exact Or.inl (.leave leaves (by simpa using settled))

theorem moves_leave {policy : LinkPolicy} {event : PeerEvent} {p : Peer} {r : Peer × List Action}
    (h : p.leave = .taken r)
    (leaves : p.phase.isEstablishing ∨ p.phase = .ready → p.Leaves event false) :
    p.Moves policy event r := by
  unfold leave at h
  split at h <;> cases h <;> rename_i phase <;>
    exact moves_beginTeardown (leaves (by simp [phase, Phase.isEstablishing]))

theorem moves_beginNegotiation {policy : LinkPolicy} {event : PeerEvent} {p q : Peer}
    (done : p.Subscribed policy event q) : p.Moves policy event (q.beginNegotiation policy) := by
  unfold beginNegotiation
  split
  · rename_i wants
    exact Or.inl (.negotiate done wants)
  · rename_i wants
    exact Or.inl (.ready done wants)

theorem moves_onServices {policy : LinkPolicy} {cs : Option (List Characteristic)} {p : Peer}
    (phase : p.phase = .discovering) :
    p.Moves policy (.servicesDiscovered cs) (p.onServices policy cs) := by
  unfold onServices
  split
  · rename_i nothing
    exact Or.inl (.reject phase nothing)
  · rename_i c rest given
    have hcs : cs = some (c :: rest) := by cases cs <;> simp_all
    subst hcs
    by_cases none : wanted policy (c :: rest) = []
    · have same : p.acceptServices policy (c :: rest) =
          (p.found policy (c :: rest)).beginNegotiation policy := by
        simp only [wanted] at none
        simp [acceptServices, found, wanted, none]
      rw [same]
      exact moves_beginNegotiation (.nothingWanted phase (by simp) none)
    · have same : p.acceptServices policy (c :: rest) =
          ((p.found policy (c :: rest)).subscribing, (wanted policy (c :: rest)).map .subscribe) := by
        simp only [wanted] at none
        simp only [acceptServices, List.isEmpty_iff, none, ↓reduceIte]
        rfl
      rw [same]
      exact Or.inl (.subscribe phase none)

theorem moves_confirmEnable {policy : LinkPolicy} {u : Uuid} {p : Peer}
    (phase : p.phase = .subscribing) : p.Moves policy (.enabled u) (p.confirmEnable policy u) := by
  unfold confirmEnable
  by_cases last : u ∈ p.pendingEnable ∧ (p.pendingEnable.erase u).isEmpty
  · rw [if_pos last]
    exact moves_beginNegotiation (.lastEnabled phase last.1 last.2)
  · rw [if_neg last]
    exact Or.inl (.enabled phase fun pending => by simpa [pending] using last)

theorem moves_settleDisable {policy : LinkPolicy} {u : Uuid} {p : Peer}
    (phase : p.phase = .disconnecting) : p.Moves policy (.disableSettled u) (p.settleDisable u) := by
  unfold settleDisable
  by_cases last : u ∈ p.pendingDisable ∧ (p.pendingDisable.erase u).isEmpty
  · rw [if_pos last]
    exact Or.inr ⟨[], .lastSettled phase last.1 last.2, rfl, rfl, rfl, rfl⟩
  · rw [if_neg last]
    exact Or.inl (.settled phase fun pending => by simpa [pending] using last)

theorem moves_onUnitSize {policy : LinkPolicy} {size : UInt16} {p : Peer} {r : Peer × List Action}
    (h : p.onUnitSize size = .taken r) : p.Moves policy (.unitSizeReported size) r := by
  unfold onUnitSize at h
  split at h <;> rename_i phase <;> cases h
  · exact Or.inl (.negotiated phase)
  · exact Or.inl (.note (Or.inl phase))
  · exact Or.inl (.note (Or.inr (Or.inl phase)))
  · exact Or.inl (.note (Or.inr (Or.inr (Or.inl phase))))
  · exact Or.inl (.note (Or.inr (Or.inr (Or.inr phase))))
  · exact Or.inl (.late phase .unitSize)

/-- An accepted event is one of the moves. -/
theorem moves_of_taken {policy : LinkPolicy} {event : PeerEvent} {p : Peer}
    {r : Peer × List Action} (h : p.react policy event = .taken r) : p.Moves policy event r := by
  cases event <;> simp only [react] at h
  case connectRequested => exact moves_of_during h fun phase => Or.inl (.request phase)
  case connectFailed =>
    exact moves_of_during h fun phase => Or.inr ⟨[], .connectFailed phase, rfl, rfl, rfl, rfl⟩
  case linkUp => exact moves_of_during h fun phase => Or.inl (.linkUp phase)
  case linkDown =>
    split at h
    · rename_i phase
      cases h
      by_cases settled : p.pendingDisable.isEmpty
      · rw [if_pos settled]
        exact Or.inr ⟨[], .linkDown phase settled, rfl, rfl, rfl, rfl⟩
      · rw [if_neg settled]
        exact Or.inl (.late phase (.linkDown (by simpa using settled)))
    · exact moves_leave h .linkDown
  case discoveryRefused =>
    exact moves_of_during h fun phase => moves_beginTeardown (.undiscovered phase)
  case servicesDiscovered => exact moves_of_during h moves_onServices
  case enabled =>
    split at h
    · rename_i phase
      cases h
      exact Or.inl (.late phase .enabled)
    · exact moves_of_during h moves_confirmEnable
  case enableFailed =>
    split at h
    · rename_i phase
      cases h
      exact Or.inl (.late phase .enableFailed)
    · exact moves_of_during h fun phase => moves_beginTeardown (.unsubscribed phase)
  case negotiationUnavailable => exact moves_of_during h fun phase => Or.inl (.unnegotiated phase)
  case unitSizeReported => exact moves_onUnitSize h
  case disableSettled => exact moves_of_during h moves_settleDisable
  case disableRefused =>
    exact moves_of_during h fun phase => Or.inr ⟨[], .disableRefused phase, rfl, rfl, rfl, rfl⟩
  case disconnectRequested =>
    split at h
    · rename_i phase
      cases h
      exact Or.inl (.late phase .requested)
    · exact moves_leave h .requested

namespace Proceeds

variable {policy : LinkPolicy} {p q : Peer} {event : PeerEvent} {actions : List Action}

theorem address_eq (h : p.Proceeds policy event q actions) : q.address = p.address := by
  cases h with
  | negotiate done | ready done => cases done <;> rfl
  | _ => rfl

theorem handle_eq (h : p.Proceeds policy event q actions) : q.handle = p.handle := by
  cases h with
  | negotiate done | ready done => cases done <;> rfl
  | _ => rfl

theorem phase_ne_disconnected (h : p.Proceeds policy event q actions) (there : p.phase ≠ .disconnected) :
    q.phase ≠ .disconnected := by
  cases h <;> simp_all [subscribing, leaving]

/-- A peer that goes on keeps its handle and stays in the registry. -/
theorem kept_actions (h : p.Proceeds policy event q actions) :
    .release ∉ actions ∧ .forget ∉ actions := by
  cases h <;> simp [leavingActions]

end Proceeds

theorem Leaves.away {p : Peer} {event : PeerEvent} {disconnect : Bool}
    (leaves : p.Leaves event disconnect) : p.phase ≠ .disconnecting := by
  cases leaves with
  | linkDown live | requested live =>
    intro phase
    simp [phase, Phase.isEstablishing] at live
  | undiscovered phase | unsubscribed phase => simp [phase]

theorem Leaves.rank {p : Peer} {event : PeerEvent} {disconnect : Bool} (leaves : p.Leaves event disconnect) :
    p.phase.rank ≤ Phase.ready.rank := by
  cases leaves with
  | linkDown live | requested live =>
    cases phase : p.phase <;> simp_all [Phase.isEstablishing, Phase.rank]
  | undiscovered phase | unsubscribed phase => simp [phase, Phase.rank]

/-- No move leads back. -/
theorem Proceeds.rank {policy : LinkPolicy} {p q : Peer} {event : PeerEvent} {actions : List Action}
    (moved : p.Proceeds policy event q actions) : p.phase.rank ≤ q.phase.rank := by
  cases moved with
  | request phase | linkUp phase | subscribe phase | reject phase | negotiated phase | unnegotiated phase =>
    simp [phase, subscribing, Phase.rank]
  | negotiate done | ready done =>
    cases done with
    | nothingWanted phase | lastEnabled phase => simp [phase, Phase.rank]
  | leave leaves => exact Nat.le_trans leaves.rank (by simp [leaving, Phase.rank])
  | note | enabled | settled | late => exact Nat.le_refl _

/-- A peer that stays on its way out settles a target or is told something late. -/
theorem Proceeds.lingering {policy : LinkPolicy} {p q : Peer} {event : PeerEvent} {actions : List Action}
    (moved : p.Proceeds policy event q actions) (phase : p.phase = .disconnecting) :
    actions = [] ∧
      ((∃ u, event = .disableSettled u ∧ q = { p with pendingDisable := p.pendingDisable.erase u } ∧
          (u ∈ p.pendingDisable → (p.pendingDisable.erase u).isEmpty = false)) ∨
        p.Late event ∧ q = p) := by
  cases moved with
  | settled _ more => exact ⟨rfl, Or.inl ⟨_, rfl, rfl, more⟩⟩
  | late _ late => exact ⟨rfl, Or.inr ⟨late, rfl⟩⟩
  | leave leaves => exact absurd phase leaves.away
  | note other => simp [phase] at other
  | negotiate done | ready done =>
    cases done with
    | nothingWanted other | lastEnabled other => simp [phase] at other
  | request other | linkUp other | subscribe other | reject other | negotiated other | unnegotiated other
  | enabled other => simp [phase] at other

/-- A peer on its way out goes with its link, when its last target is settled, or when no target can be. -/
theorem Ends.lingering {p : Peer} {event : PeerEvent} {before : List Action} (ended : p.Ends event before)
    (phase : p.phase = .disconnecting) :
    before = [] ∧ (event = .linkDown ∧ p.pendingDisable.isEmpty = true ∨
      (∃ u, event = .disableSettled u ∧ (p.pendingDisable.erase u).isEmpty = true) ∨
      event = .disableRefused) := by
  cases ended with
  | linkDown _ settled => exact ⟨rfl, Or.inl ⟨rfl, settled⟩⟩
  | lastSettled _ _ last => exact ⟨rfl, Or.inr (Or.inl ⟨_, rfl, last⟩)⟩
  | disableRefused => exact ⟨rfl, Or.inr (Or.inr rfl)⟩
  | leave leaves => exact absurd phase leaves.away
  | connectFailed other => simp [phase] at other

theorem Ends.kept_actions {p : Peer} {event : PeerEvent} {before : List Action}
    (h : p.Ends event before) : .release ∉ before ∧ .forget ∉ before := by
  cases h <;> simp [leavingActions]

end RadioCentral.Peer
