import RadioCentral.Proofs.CentralCoherence
import RadioCentral.Proofs.Run.Changes

/-!
What a connection goes through before its peer is ready: the link comes up, the wanted service is
found, and the negotiation of the unit size, if there is one, is answered. All of it is in the record
after the request that the handle came from. Handles may come back: what is said here is about the
peer that the index leads to.
-/
namespace RadioCentral

open Registry (Step)

variable {σ : Type}

namespace Log

def since (h : Handle) (log : Log) : Log :=
  (log.reverse.takeWhile fun e => e.issued? ≠ some h).reverse

/-- The handle was last given out for an address. -/
def Dialed (a : Address) (h : Handle) (log : Log) : Prop :=
  ∃ early route, log = early ++ .dialed a route (some h) :: log.since h

def LinkUp (h : Handle) (log : Log) : Prop := .told (.connected h) ∈ log

/-- Once the link was up, the wanted service was found on it with something in it. -/
def Served (service : Uuid) (h : Handle) (log : Log) : Prop :=
  ∃ early later services cs, log = early ++ .told (.servicesDiscovered h services) :: later ∧
    LinkUp h early ∧ World.wantedCharacteristics service services = some cs ∧ cs ≠ []

def Sized (h : Handle) (log : Log) : Prop :=
  ∀ early later size, log = early ++ .asked (.requestUnitSize h size) true :: later →
    ∃ told success, .told (.unitSizeChanged h told success) ∈ later

variable {service : Uuid} {h : Handle} {a : Address} {log more : Log} {e : Exchange}

theorem since_append (none : ∀ e ∈ more, e.issued? ≠ some h) :
    (log ++ more).since h = log.since h ++ more := by
  unfold since
  rw [List.reverse_append, List.takeWhile_append_of_pos (by simpa using none), List.reverse_append,
    List.reverse_reverse]

theorem since_dialed (route : Route) : (log ++ [Exchange.dialed a route (some h)]).since h = [] := by
  simp [since, Exchange.issued?]

theorem Dialed.append (dialed : Dialed a h log) (none : ∀ e ∈ more, e.issued? ≠ some h) :
    Dialed a h (log ++ more) := by
  obtain ⟨early, route, split⟩ := dialed
  refine ⟨early, route, ?_⟩
  rw [since_append none]
  nth_rewrite 1 [split]
  simp

theorem LinkUp.append (up : LinkUp h log) (more : Log) : LinkUp h (log ++ more) :=
  List.mem_append_left more up

theorem Served.append (served : Served service h log) (more : Log) : Served service h (log ++ more) := by
  obtain ⟨early, later, services, cs, rfl, rest⟩ := served
  exact ⟨early, later ++ more, services, cs, by simp, rest⟩

theorem sized_nil : Sized h [] := fun early later size split => by simp at split

theorem Sized.concat (sized : Sized h log) (other : ∀ size, e ≠ .asked (.requestUnitSize h size) true) :
    Sized h (log ++ [e]) := by
  intro early later size split
  rcases split_concat split with ⟨same, -⟩ | ⟨rest, rfl, before⟩
  · exact absurd same.symm (other size)
  · obtain ⟨told, success, mem⟩ := sized early rest size before
    exact ⟨told, success, List.mem_append_left _ mem⟩

theorem Sized.append (sized : Sized h log)
    (others : ∀ e ∈ more, ∀ size, e ≠ .asked (.requestUnitSize h size) true) : Sized h (log ++ more) := by
  induction more using List.reverseRecOn with
  | nil => rwa [List.append_nil]
  | append_singleton more e ih =>
    rw [← List.append_assoc]
    have before := ih fun e' he' => others e' (List.mem_append_left _ he')
    exact before.concat (others e (by simp))

theorem sized_told (size : UInt16) (success : Bool) :
    Sized h (log ++ [.told (.unitSizeChanged h size success)]) := by
  intro early later asked split
  rcases split_concat split with ⟨same, -⟩ | ⟨rest, rfl, -⟩
  · cases same
  · exact ⟨size, success, List.mem_append_right _ (List.mem_singleton.2 rfl)⟩

end Log

/-- How far the record has come when a connection is in a phase. -/
def Phase.Reached (service : Uuid) (h : Handle) (log : Log) : Phase → Prop
  | .idle | .connecting => log.Sized h
  | .discovering => log.LinkUp h ∧ log.Sized h
  | .subscribing | .ready => log.Served service h ∧ log.Sized h
  | .negotiating => log.Served service h
  | .disconnecting | .disconnected => True

theorem Phase.Reached.append {service : Uuid} {h : Handle} {log more : Log} {phase : Phase}
    (reached : phase.Reached service h log)
    (others : ∀ e ∈ more, ∀ size, e ≠ .asked (.requestUnitSize h size) true) :
    phase.Reached service h (log ++ more) := by
  cases phase with
  | idle | connecting => exact Log.Sized.append reached others
  | discovering => exact ⟨reached.1.append more, reached.2.append others⟩
  | subscribing | ready => exact ⟨reached.1.append more, reached.2.append others⟩
  | negotiating => exact Log.Served.append reached more
  | disconnecting | disconnected => trivial

/-- Before a negotiation every request for a unit size is answered. -/
theorem Phase.Reached.sized {service : Uuid} {h : Handle} {log : Log} {phase : Phase}
    (reached : phase.Reached service h log) (early : phase.rank < Phase.negotiating.rank) : log.Sized h := by
  cases phase with
  | idle | connecting => exact reached
  | discovering | subscribing => exact reached.2
  | negotiating | ready | disconnecting | disconnected => simp [Phase.rank] at early

/-- What the record holds when an event comes. -/
def PeerEvent.Grounded (service : Uuid) (h : Handle) (log : Log) (phase : Phase) : PeerEvent → Prop
  | .linkUp => log.LinkUp h
  | .servicesDiscovered cs => phase = .discovering → ∀ found ∈ cs, found ≠ [] → log.Served service h
  | .unitSizeReported _ | .negotiationUnavailable => log.Sized h
  | _ => True

namespace Peer

variable {service : Uuid} {h : Handle} {log : Log} {policy : LinkPolicy} {p q : Peer} {event : PeerEvent}
  {actions : List Action}

theorem Subscribed.served (done : p.Subscribed policy event q)
    (grounded : event.Grounded service h log p.phase) (reached : p.phase.Reached service h log) :
    log.Served service h ∧ log.Sized h := by
  cases done with
  | nothingWanted phase some =>
    have sized : log.Sized h := by
      rw [phase] at reached
      exact reached.2
    exact ⟨grounded phase _ rfl some, sized⟩
  | lastEnabled phase =>
    rw [phase] at reached
    exact reached

theorem Proceeds.reached (moved : p.Proceeds policy event q actions)
    (grounded : event.Grounded service h log p.phase) (reached : p.phase.Reached service h log) :
    q.phase.Reached service h log := by
  cases moved with
  | request phase =>
    rw [phase] at reached
    exact reached
  | linkUp phase =>
    rw [phase] at reached
    exact ⟨grounded, reached⟩
  | @subscribe cs phase targets =>
    have some : cs ≠ [] := by
      rintro rfl
      exact targets rfl
    have served := grounded phase _ rfl some
    rw [phase] at reached
    exact ⟨served, reached.2⟩
  | reject | leave => trivial
  | negotiate done => exact (done.served grounded reached).1
  | ready done => exact done.served grounded reached
  | negotiated phase | unnegotiated phase =>
    rw [phase] at reached
    exact ⟨reached, grounded⟩
  | note | enabled | settled | late => exact reached

/-- A unit size is asked for alone, when the notifications are on. -/
theorem Proceeds.asks {size : UInt16} (moved : p.Proceeds policy event q actions)
    (asks : .requestUnitSize size ∈ actions) :
    actions = [.requestUnitSize size] ∧ q.phase = .negotiating ∧
      (p.phase = .discovering ∨ p.phase = .subscribing) ∧ event ≠ .disconnectRequested := by
  cases moved with
  | negotiate done =>
    obtain rfl := by simpa using asks
    cases done with
    | nothingWanted phase => exact ⟨rfl, rfl, Or.inl phase, by simp⟩
    | lastEnabled phase => exact ⟨rfl, rfl, Or.inr phase, by simp⟩
  | _ => simp [leavingActions] at asks

theorem Ends.unasked {before : List Action} (ended : p.Ends event before) (size : UInt16) :
    .requestUnitSize size ∉ before := by
  cases ended <;> simp [leavingActions]

end Peer

namespace World

/-- Only a request for a unit size that is refused leads to giving the negotiation up. -/
theorem unavailable_execute {R : Radio σ} {a : Address} {step : Step} {w : World σ}
    (refused : (w.execute R a step).1 = some .negotiationUnavailable) :
    ∃ size handle, step = .run (.requestUnitSize size) handle := by
  cases step with
  | release => cases refused
  | run action handle =>
    cases action with
    | requestUnitSize size => exact ⟨size, handle, rfl⟩
    | subscribe c | unsubscribe c =>
      cases handle with
      | none => simp [execute, perform, switch] at refused
      | some h =>
        simp only [execute, perform, switch, Subscription.event?] at refused
        split at refused <;> simp at refused
    | connect | discoverServices =>
      simp only [execute, perform] at refused
      split at refused <;> cases refused
    | pauseScanning | resumeScanning | invalidateCache | disconnect | release | forget | reportConnected
    | reportDisconnected => cases refused

end World

def Exchange.Neutral (e : Exchange) : Prop :=
  e.issued? = none ∧ ∀ h size, e ≠ .asked (.requestUnitSize h size) true

theorem Exchange.neutral_told (event : RadioEvent) : (told event).Neutral := ⟨rfl, by simp⟩

theorem Exchange.AboutScan.neutral {e : Exchange} (about : e.AboutScan) : e.Neutral := by
  obtain ⟨request, answer, rfl, free⟩ := about
  refine ⟨rfl, fun h size same => ?_⟩
  cases same
  cases free

theorem Exchange.Apart.neutral {e : Exchange} (apart : e.Apart) : e.Neutral := by
  cases apart with
  | told => exact neutral_told _
  | write => exact ⟨rfl, by simp⟩

theorem World.hear_neutral (event : RadioEvent) :
    ∀ e ∈ (some event).toList.map Exchange.told, e.Neutral := by
  intro e he
  obtain rfl := List.mem_singleton.1 he
  exact Exchange.neutral_told event

theorem Carried.unissued {step : Step} {log : Log} {event : Option PeerEvent}
    (carried : Carried step log event) : ∀ e ∈ log, e.issued? = none := by
  intro e he
  cases carried with
  | scan _ about =>
    obtain ⟨request, answer, rfl, -⟩ := about e he
    rfl
  | subscribed switched | unsubscribed switched =>
    cases switched <;> simp only [List.mem_cons, List.not_mem_nil, or_false] at he <;>
      rcases he with rfl | rfl <;> rfl
  | released | asked =>
    obtain rfl := List.mem_singleton.1 he
    rfl
  | queued | unqueued | silent | unlinked => cases he

/-- Only the step that is there for it asks for a unit size. -/
theorem Carried.unasked {step : Step} {log : Log} {event : Option PeerEvent} {h : Handle}
    (carried : Carried step log event) (other : ∀ size, step ≠ .run (.requestUnitSize size) (some h)) :
    ∀ e ∈ log, ∀ size, e ≠ .asked (.requestUnitSize h size) true := by
  rintro e he size rfl
  cases carried with
  | scan _ about =>
    obtain ⟨request, answer, same, free⟩ := about _ he
    cases same
    cases free
  | subscribed switched | unsubscribed switched => cases switched <;> simp at he
  | asked asks => cases asks <;> simp_all
  | released | queued | unqueued | silent | unlinked => simp at he

theorem Dials.unissued {a : Address} {log : Log} {answer : Option Handle} (dials : Dials a log answer)
    {h : Handle} (other : answer ≠ some h) : ∀ e ∈ log, e.issued? ≠ some h := by
  induction dials with
  | exhausted => simp
  | accepted => simpa [Exchange.issued?] using other
  | refused route rest ih => simpa [Exchange.issued?] using ih other

theorem Dials.unasked {a : Address} {log : Log} {answer : Option Handle} (dials : Dials a log answer) :
    ∀ e ∈ log, ∀ h size, e ≠ .asked (.requestUnitSize h size) true := by
  induction dials with
  | exhausted => simp
  | accepted => simp
  | refused route rest ih => simpa using ih

theorem Dials.neutral {a : Address} {log : Log} (dials : Dials a log none) : ∀ e ∈ log, e.Neutral :=
  fun e he => ⟨Option.eq_none_iff_forall_ne_some.2 fun _ => dials.unissued (by simp) e he, dials.unasked e he⟩

theorem Dials.last {a : Address} {log : Log} {answer : Option Handle} (dials : Dials a log answer) :
    ∀ h ∈ answer, ∃ early route, log = early ++ [.dialed a route (some h)] := by
  induction dials with
  | exhausted => simp
  | accepted route h =>
    rintro k same
    obtain rfl := Option.some.inj same
    exact ⟨[], route, rfl⟩
  | refused route rest ih =>
    intro k same
    obtain ⟨early, accepted, rfl⟩ := ih k same
    exact ⟨_ :: early, accepted, rfl⟩

/-- A handle that was given out just now has no record yet. -/
theorem Dials.since {a : Address} {h : Handle} {more : Log} (dials : Dials a more (some h)) (log : Log) :
    (log ++ more).since h = [] := by
  obtain ⟨early, route, rfl⟩ := dials.last h rfl
  rw [← List.append_assoc]
  exact Log.since_dialed route

namespace World

def Stands (service : Uuid) (w : World (Recorded σ)) : Prop :=
  ∀ h a p, w.central.registry.addressFor? h = some a → w.central.registry.get? a = some p →
    w.radio.log.Dialed a h ∧ p.phase.Reached service h (w.radio.log.since h)

/-- The peer of an address has a connection that was set up from end to end. -/
def Prepared (service : Uuid) (a : Address) (w : World (Recorded σ)) : Prop :=
  ∃ p h, w.central.registry.get? a = some p ∧ p.handle = some h ∧ w.radio.log.Dialed a h ∧
    (w.radio.log.since h).Served service h ∧ (w.radio.log.since h).Sized h

/-- A negotiation that could not be requested is still to be given up. -/
def GivesUp (a : Address) (events : List PeerEvent) (w : World (Recorded σ)) : Prop :=
  .negotiationUnavailable ∈ events → ∀ p, w.central.registry.get? a = some p →
    Phase.negotiating.rank ≤ p.phase.rank ∧
      ∀ h, w.central.registry.addressFor? h = some a → (w.radio.log.since h).Sized h

/-- What holds while a peer settles. Only a peer that the index leads to is on its way to be ready, so
a handle that came back does not serve two connections. -/
structure Preparing (service : Uuid) (a : Address) (steps : List Step) (events : List PeerEvent)
    (w : World (Recorded σ)) : Prop where
  orderly : w.central.registry.Orderly
  stands : w.Stands service
  followUps : ∀ e ∈ events, e.isFollowUp = true
  asking : ∀ size handle, .run (.requestUnitSize size) handle ∈ steps →
    steps = [.run (.requestUnitSize size) handle] ∧ .negotiationUnavailable ∉ events ∧
      ∃ h, handle = some h ∧ w.central.registry.addressFor? h = some a ∧
        (w.radio.log.since h).Sized h ∧
          ∀ p, w.central.registry.get? a = some p → p.phase = .negotiating
  givesUp : w.GivesUp a events
  guarded : ∀ p h, w.central.registry.get? a = some p → p.handle = some h →
    w.central.registry.addressFor? h = some a ∨ (p.phase.isEstablishing = false ∧ p.phase ≠ .ready)

section

variable {service : Uuid} {a : Address} {steps : List Step} {events : List PeerEvent}
  {w v : World (Recorded σ)}

theorem handle_unique (orderly : w.central.registry.Orderly) {h k : Handle}
    (first : w.central.registry.addressFor? h = some a)
    (second : w.central.registry.addressFor? k = some a) : h = k := by
  obtain ⟨p, here, holds⟩ := orderly.indexed h a first
  obtain ⟨q, there, held⟩ := orderly.indexed k a second
  obtain rfl : p = q := Option.some.inj (here.symm.trans there)
  exact Option.some.inj (holds.symm.trans held)

theorem Stands.congr {more : Log} (stands : w.Stands service)
    (registry : v.central.registry = w.central.registry) (grown : v.radio.log = w.radio.log ++ more)
    (neutral : ∀ e ∈ more, e.Neutral) : v.Stands service := by
  intro h a p known here
  rw [registry] at known here
  obtain ⟨dialed, reached⟩ := stands h a p known here
  have none : ∀ e ∈ more, e.issued? ≠ some h := fun e he => by simp [(neutral e he).1]
  rw [grown, Log.since_append none]
  exact ⟨dialed.append none, reached.append fun e he => (neutral e he).2 h⟩

/-- The step that asks for the unit size leaves nothing but the answer to wait for. -/
theorem Preparing.request {size : UInt16} {handle : Option Handle}
    (h : w.Preparing service a (.run (.requestUnitSize size) handle :: steps) events) (R : Radio σ) :
    (w.execute R.recorded a (.run (.requestUnitSize size) handle)).2.Preparing service a steps
      (events ++ (w.execute R.recorded a (.run (.requestUnitSize size) handle)).1.toList) := by
  obtain ⟨only, none, k, rfl, known, sized, negotiating⟩ := h.asking size handle List.mem_cons_self
  obtain rfl : steps = [] := (List.cons.inj only).2
  have registry := registry_execute R.recorded a (.run (.requestUnitSize size) (some k)) w
  obtain ⟨more, grown, carried⟩ := carried_execute R a (.run (.requestUnitSize size) (some k)) w
  generalize (w.execute R.recorded a (.run (.requestUnitSize size) (some k))).2 = v at registry grown ⊢
  generalize (w.execute R.recorded a (.run (.requestUnitSize size) (some k))).1 = event at carried ⊢
  have unissued : ∀ j, ∀ e ∈ more, e.issued? ≠ some j := fun j e he => by simp [carried.unissued e he]
  constructor
  case orderly =>
    rw [registry]
    exact h.orderly
  case stands =>
    intro j b p there here
    rw [registry] at there here
    obtain ⟨dialed, reached⟩ := h.stands j b p there here
    rw [grown, Log.since_append (unissued j)]
    refine ⟨dialed.append (unissued j), ?_⟩
    by_cases same : j = k
    · subst same
      obtain rfl : a = b := Option.some.inj (known.symm.trans there)
      rw [negotiating p here] at reached ⊢
      exact Log.Served.append reached more
    · refine reached.append (carried.unasked fun n => ?_)
      simp [Ne.symm same]
  case followUps =>
    intro e he
    rcases List.mem_append.1 he with he | he
    · exact h.followUps e he
    · exact carried.isFollowUp e (by simpa using he)
  case asking => simp
  case givesUp =>
    intro up p here
    rw [registry] at here
    refine ⟨by rw [negotiating p here], fun j there => ?_⟩
    rw [registry] at there
    obtain rfl := handle_unique h.orderly known there
    have due : event = some .negotiationUnavailable := by simpa [none] using up
    rw [grown, Log.since_append (unissued k)]
    refine sized.append fun e he n => ?_
    rintro rfl
    cases carried with
    | asked asks answer => cases asks; cases answer <;> simp_all
    | scan what => simp at what
    | silent what => simp at what
  case guarded =>
    rw [registry]
    exact h.guarded

theorem Preparing.execute {step : Step} (h : w.Preparing service a (step :: steps) events) (R : Radio σ) :
    (w.execute R.recorded a step).2.Preparing service a steps
      (events ++ (w.execute R.recorded a step).1.toList) := by
  by_cases asks : ∃ size handle, step = .run (.requestUnitSize size) handle
  · obtain ⟨size, handle, rfl⟩ := asks
    exact h.request R
  · have registry := registry_execute R.recorded a step w
    have available : (w.execute R.recorded a step).1 ≠ some .negotiationUnavailable := fun refused =>
      asks (unavailable_execute refused)
    obtain ⟨more, grown, carried⟩ := carried_execute R a step w
    generalize (w.execute R.recorded a step).2 = v at registry grown ⊢
    generalize (w.execute R.recorded a step).1 = event at carried available ⊢
    have unissued : ∀ j, ∀ e ∈ more, e.issued? ≠ some j := fun j e he => by simp [carried.unissued e he]
    have unasked : ∀ e ∈ more, ∀ j size, e ≠ .asked (.requestUnitSize j size) true := fun e he j =>
      carried.unasked (fun n same => asks ⟨n, _, same⟩) e he
    constructor
    case orderly =>
      rw [registry]
      exact h.orderly
    case stands => exact h.stands.congr registry grown fun e he => ⟨carried.unissued e he, unasked e he⟩
    case followUps =>
      intro e he
      rcases List.mem_append.1 he with he | he
      · exact h.followUps e he
      · exact carried.isFollowUp e (by simpa using he)
    case asking =>
      intro size handle mem
      have only := (h.asking size handle (List.mem_cons_of_mem _ mem)).1
      exact absurd ⟨size, handle, (List.cons.inj only).1⟩ asks
    case givesUp =>
      intro up p here
      have before : .negotiationUnavailable ∈ events := by
        refine (List.mem_append.1 up).resolve_right fun now => available ?_
        simpa using now
      rw [registry] at here
      obtain ⟨late, sized⟩ := h.givesUp before p here
      refine ⟨late, fun j known => ?_⟩
      rw [registry] at known
      rw [grown, Log.since_append (unissued j)]
      exact (sized j known).append fun e he => unasked e he j
    case guarded =>
      rw [registry]
      exact h.guarded

/-- What an event must bring along: it is told on the handle that leads to the peer, or it is a
follow-up, or the peer is asked to go. -/
structure Fits (service : Uuid) (a : Address) (event : PeerEvent) (w : World (Recorded σ)) : Prop where
  linked : event = .linkUp → ∀ p, w.central.registry.get? a = some p → p.handle.isSome
  grounded : ∀ p h, w.central.registry.get? a = some p → w.central.registry.addressFor? h = some a →
    event.Grounded service h (w.radio.log.since h) p.phase
  guarded : ∀ p h, w.central.registry.get? a = some p → p.handle = some h →
    w.central.registry.addressFor? h = some a ∨
      (p.phase.isEstablishing = false ∧ p.phase ≠ .ready ∧ event.isFollowUp = true) ∨
        event = .disconnectRequested

section Moving

variable {policy : LinkPolicy} {event : PeerEvent} {p q : Peer} {actions : List Action} {before : List Action}

theorem Stands.putBack (stands : w.Stands service) (here : w.central.registry.get? a = some p)
    (moved : p.Proceeds policy event q actions)
    (grounded : ∀ h, w.central.registry.addressFor? h = some a →
      event.Grounded service h (w.radio.log.since h) p.phase) :
    (w.withRegistry (w.central.registry.putBack a q)).Stands service := by
  intro h b s known there
  have view := Registry.get?_putBack here moved b
  replace known : w.central.registry.addressFor? h = some b := by
    simpa [withRegistry, Registry.addressFor?] using known
  replace there := view.symm.trans there
  by_cases same : b = a
  · subst same
    rw [if_pos rfl] at there
    obtain rfl := Option.some.inj there
    obtain ⟨dialed, reached⟩ := stands h b p known here
    exact ⟨dialed, moved.reached (grounded h known) reached⟩
  · rw [if_neg same] at there
    exact stands h b s known there

theorem Stands.remove (stands : w.Stands service) (here : w.central.registry.get? a = some p) :
    (w.withRegistry (w.central.registry.remove a).2).Stands service := by
  intro h b s known there
  simp only [withRegistry] at known there
  have other : b ≠ a := by
    rintro rfl
    simp [Registry.get?_remove_self] at there
  rw [Registry.get?_remove_ne other] at there
  rw [Registry.addressFor?_remove here] at known
  split at known
  · cases known
  · exact stands h b s known there

/-- A unit size is asked for on the handle that leads to the peer, with no request unanswered. -/
theorem Fits.asks {size : UInt16} (fits : w.Fits service a event) (orderly : w.central.registry.Orderly)
    (stands : w.Stands service) (here : w.central.registry.get? a = some p)
    (moved : p.Proceeds policy event q actions) (asks : .requestUnitSize size ∈ actions) :
    actions = [.requestUnitSize size] ∧ q.phase = .negotiating ∧
      p.phase.rank < Phase.negotiating.rank ∧ ∃ h, p.handle = some h ∧
        w.central.registry.addressFor? h = some a ∧ (w.radio.log.since h).Sized h := by
  obtain ⟨only, negotiating, early, unasked⟩ := moved.asks asks
  have rank : p.phase.rank < Phase.negotiating.rank := by
    rcases early with phase | phase <;> simp [phase, Phase.rank]
  have linked : p.handle.isSome :=
    (orderly.live a p here).holding (by rcases early with phase | phase <;> simp [phase])
  obtain ⟨h, holds⟩ := Option.isSome_iff_exists.1 linked
  have known : w.central.registry.addressFor? h = some a := by
    rcases fits.guarded p h here holds with known | ⟨gone, -⟩ | asked
    · exact known
    · rcases early with phase | phase <;> simp [phase, Phase.isEstablishing] at gone
    · exact absurd asked unasked
  exact ⟨only, negotiating, rank, h, holds, known, (stands h a p known here).2.sized rank⟩

theorem Preparing.kept (orderly : w.central.registry.Orderly) (stands : w.Stands service)
    (followUps : ∀ e ∈ events, e.isFollowUp = true) (givesUp : w.GivesUp a events)
    (fits : w.Fits service a event) (here : w.central.registry.get? a = some p)
    (moved : p.Proceeds policy event q actions) (next : (w.central.registry.putBack a q).Orderly)
    (away : event = .disconnectRequested → (w.central.registry.putBack a q).Away a) :
    (w.withRegistry (w.central.registry.putBack a q)).Preparing service a
      (actions.map (.run · p.handle)) events := by
  have index : ∀ h, (w.central.registry.putBack a q).addressFor? h = w.central.registry.addressFor? h :=
    fun h => by simp [Registry.addressFor?]
  have only : ∀ s, (w.central.registry.putBack a q).get? a = some s → s = q := fun s there => by
    simpa [Registry.get?_putBack here moved, eq_comm] using there
  constructor
  case orderly => exact next
  case stands => exact stands.putBack here moved fun h known => fits.grounded p h here known
  case followUps => exact followUps
  case asking =>
    intro size handle mem
    obtain ⟨action, asks, same⟩ := List.mem_map.1 mem
    cases same
    obtain ⟨rfl, negotiating, early, h, holds, known, sized⟩ := fits.asks orderly stands here moved asks
    refine ⟨rfl, fun up => ?_, h, holds, (index h).trans known, sized, fun s there => ?_⟩
    · exact absurd (givesUp up p here).1 (Nat.not_le_of_lt early)
    · rw [only s there]
      exact negotiating
  case givesUp =>
    intro up s there
    obtain ⟨late, sized⟩ := givesUp up p here
    rw [only s there]
    exact ⟨Nat.le_trans late moved.rank, fun h known => sized h ((index h).symm.trans known)⟩
  case guarded =>
    intro s h there holds
    obtain rfl := only s there
    rw [moved.handle_eq] at holds
    rcases fits.guarded p h here holds with known | ⟨early, unready, followUp⟩ | asked
    · exact Or.inl ((index h).trans known)
    · exact Or.inr (moved.away followUp ⟨early, unready⟩)
    · exact Or.inr (away asked s there)

theorem Preparing.ended (stands : w.Stands service) (followUps : ∀ e ∈ events, e.isFollowUp = true)
    (here : w.central.registry.get? a = some p) (ended : p.Ends event before)
    (next : (w.central.registry.remove a).2.Orderly) :
    (w.withRegistry (w.central.registry.remove a).2).Preparing service a
      (before.map (.run · p.handle) ++ (p.handle.toList.map .release ++
        [.run .reportDisconnected p.handle, .run .resumeScanning p.handle])) events := by
  have left : ∀ s, (w.central.registry.remove a).2.get? a ≠ some s := fun s there => by
    simp [Registry.get?_remove_self] at there
  constructor
  case orderly => exact next
  case stands => exact stands.remove here
  case followUps => exact followUps
  case asking =>
    intro size handle mem
    have none := ended.unasked size
    simp [none] at mem
  case givesUp => exact fun _ s there => absurd there (left s)
  case guarded => exact fun s _ there => absurd there (left s)

theorem Preparing.advance (orderly : w.central.registry.Orderly) (stands : w.Stands service)
    (followUps : ∀ e ∈ events, e.isFollowUp = true) (givesUp : w.GivesUp a events)
    (fits : w.Fits service a event) (R : Radio σ) :
    (w.transition R.recorded a event).2.Preparing service a (w.transition R.recorded a event).1 events := by
  have next := orderly.advance (w.policy R.recorded) a event fits.linked
  have spec := w.central.registry.advance_spec (w.policy R.recorded) a event
  have away : event = .disconnectRequested →
      (w.central.registry.advance (w.policy R.recorded) a event).2.Away a := by
    rintro rfl
    exact Registry.away_disconnectRequested _ a _
  show World.Preparing service a (w.central.registry.advance (w.policy R.recorded) a event).1 events
    (w.withRegistry (w.central.registry.advance (w.policy R.recorded) a event).2)
  generalize (w.central.registry.advance (w.policy R.recorded) a event).1 = steps at spec ⊢
  generalize (w.central.registry.advance (w.policy R.recorded) a event).2 = after at spec next away ⊢
  cases spec with
  | ignored why =>
    refine ⟨next, stands, followUps, by simp, givesUp, fun p h here holds => ?_⟩
    rcases fits.guarded p h here holds with known | ⟨early, unready, -⟩ | asked
    · exact Or.inl known
    · exact Or.inr ⟨early, unready⟩
    · exact Or.inr (away asked p here)
  | kept here moved => exact .kept orderly stands followUps givesUp fits here moved next away
  | ended here ended => exact .ended stands followUps here ended next

end Moving

theorem Preparing.prepared {p : Peer} (h : w.Preparing service a steps events)
    (here : w.central.registry.get? a = some p) (ready : p.phase = .ready) : w.Prepared service a := by
  have linked := (h.orderly.live a p here).holding (by simp [ready])
  obtain ⟨k, holds⟩ := Option.isSome_iff_exists.1 linked
  have known := (h.guarded p k here holds).resolve_right fun away => away.2 ready
  obtain ⟨dialed, reached⟩ := h.stands k a p known here
  rw [ready] at reached
  exact ⟨p, k, here, holds, dialed, reached.1, reached.2⟩

def Honest (service : Uuid) (w v : World (Recorded σ)) : Prop :=
  ∀ a size, (⟨w, v⟩ : Change (Recorded σ)).GetsReady a size → v.Prepared service a

theorem honest_of_registry (same : v.central.registry = w.central.registry) : Honest service w v :=
  fun _ _ ready => absurd ready (Change.not_getsReady (by rw [same]))

theorem Preparing.honest {event : PeerEvent} {R : Radio σ}
    (h : (w.transition R.recorded a event).2.Preparing service a steps events) :
    Honest service w (w.transition R.recorded a event).2 := by
  intro b size ready
  by_cases same : b = a
  · subst same
    obtain ⟨-, p, there, phase, -⟩ := ready
    exact h.prepared there phase
  · exact absurd ready (Change.not_getsReady (Registry.get?_advance_ne same))

theorem Preparing.fits {event : PeerEvent} (h : w.Preparing service a steps (event :: events)) :
    w.Fits service a event := by
  have followUp := h.followUps event List.mem_cons_self
  refine ⟨fun up => ?_, fun p k here known => ?_, fun p k here holds => ?_⟩
  · rw [up] at followUp
    cases followUp
  · cases event with
    | negotiationUnavailable => exact (h.givesUp List.mem_cons_self p here).2 k known
    | connectRequested | linkUp | linkDown | servicesDiscovered | unitSizeReported
    | disconnectRequested => cases followUp
    | connectFailed | discoveryRefused | enabled | enableFailed | disableSettled
    | disableRefused => trivial
  · rcases h.guarded p k here holds with known | ⟨early, unready⟩
    · exact Or.inl known
    · exact Or.inr (Or.inl ⟨early, unready, followUp⟩)

theorem honest_settling (h : w.Preparing service a steps events) (R : Radio σ) :
    (∀ c ∈ w.settling R.recorded a steps events, Honest service c.before c.after) ∧
      (w.settle R.recorded a steps events).Preparing service a [] [] := by
  refine settling_induction (I := fun steps events v => v.Preparing service a steps events) ?_ ?_ h
  · intro step steps events v now
    exact ⟨honest_of_registry (registry_execute R.recorded a step v), now.execute R⟩
  · intro event events v now
    have later : ∀ e ∈ events, e.isFollowUp = true := fun e he => now.followUps e (List.mem_cons_of_mem _ he)
    have givesUp : v.GivesUp a events := fun up => now.givesUp (List.mem_cons_of_mem _ up)
    have next := Preparing.advance now.orderly now.stands later givesUp now.fits R
    exact ⟨next.honest, next⟩

structure Standing (service : Uuid) (w : World (Recorded σ)) : Prop where
  orderly : w.central.registry.Orderly
  stands : w.Stands service

theorem Standing.congr {more : Log} (h : w.Standing service)
    (registry : v.central.registry = w.central.registry) (grown : v.radio.log = w.radio.log ++ more)
    (neutral : ∀ e ∈ more, e.Neutral) : v.Standing service where
  orderly := registry ▸ h.orderly
  stands := h.stands.congr registry grown neutral

theorem honest_drive {event : PeerEvent} (h : w.Standing service) (fits : w.Fits service a event)
    (R : Radio σ) :
    (∀ c ∈ w.settling R.recorded a [] [event], Honest service c.before c.after) ∧
      (w.drive R.recorded a event).Standing service := by
  have none : w.GivesUp a [] := fun up => by cases up
  have first := Preparing.advance h.orderly h.stands (by simp) none fits R
  obtain ⟨honest, last⟩ := honest_settling first R
  rw [settling_drive, drive_eq]
  exact ⟨List.forall_mem_cons.2 ⟨first.honest, honest⟩, last.orderly, last.stands⟩

theorem fits_disconnectRequested (w : World (Recorded σ)) : w.Fits service a .disconnectRequested :=
  ⟨fun up => (by cases up), fun _ _ _ _ => trivial, fun _ _ _ _ => Or.inr (Or.inr rfl)⟩

theorem fits_connectFailed (waits : w.awaitsConnect a = true) : w.Fits service a .connectFailed := by
  refine ⟨fun up => (by cases up), fun _ _ _ _ => trivial, fun p h here holds => ?_⟩
  simp [awaitsConnect, here, holds] at waits

/-- What the radio tells about a handle is in the record when its peer is told. -/
theorem Reaches.fits {event : RadioEvent} {told : PeerEvent} (reaches : w.Reaches event a told)
    (h : w.Standing service) (settings : w.central.settings.service = service) : (w.hear (some event)).Fits service a told := by
  refine ⟨reaches.linked h.orderly, fun p k here known => ?_, fun p k here holds => ?_⟩
  · obtain ⟨j, means, leads⟩ := reaches
    obtain rfl := handle_unique h.orderly leads known
    have reached := (h.stands j a p known here).2
    have grown : (w.hear (some event)).radio.log.since j = w.radio.log.since j ++ [.told event] :=
      Log.since_append (by simp [Exchange.issued?])
    rw [grown]
    rw [settings] at means
    cases event with
    | connected =>
      simp only [RadioEvent.peerEvent?, Option.some.injEq, Prod.mk.injEq] at means
      obtain ⟨rfl, rfl⟩ := means
      exact List.mem_append_right _ (List.mem_singleton.2 rfl)
    | disconnected =>
      simp only [RadioEvent.peerEvent?, Option.some.injEq, Prod.mk.injEq] at means
      obtain ⟨-, rfl⟩ := means
      trivial
    | servicesDiscovered k services =>
      simp only [RadioEvent.peerEvent?, Option.some.injEq, Prod.mk.injEq] at means
      obtain ⟨rfl, rfl⟩ := means
      intro phase cs wanted some
      rw [phase] at reached
      exact ⟨_, [], services, cs, rfl, reached.1, wanted, some⟩
    | descriptorWritten k c value success =>
      simp only [RadioEvent.peerEvent?, Option.map_eq_some_iff] at means
      obtain ⟨result, means, same⟩ := means
      obtain ⟨rfl, rfl⟩ := Prod.mk.inj same
      unfold Subscription.resultEvent? at means
      split at means
      · split at means <;> cases means <;> trivial
      · split at means <;> cases means
        trivial
    | unitSizeChanged k size success =>
      simp only [RadioEvent.peerEvent?, Option.some.injEq, Prod.mk.injEq] at means
      obtain ⟨rfl, rfl⟩ := means
      exact Log.sized_told size success
    | advertisement | characteristicChanged | characteristicWritten => cases means
  · obtain ⟨j, q, -, known, there, held⟩ := reaches.holds h.orderly
    obtain rfl : q = p := Option.some.inj (there.symm.trans here)
    obtain rfl : j = k := Option.some.inj (held.symm.trans holds)
    exact Or.inl known

theorem honest_sendAway {duties : List Duty} (h : w.Standing service) (R : Radio σ)
    (tells : ∀ d ∈ duties, d = .tell d.address .disconnectRequested) :
    (∀ c ∈ w.journey R.recorded duties, Honest service c.before c.after) ∧
      (w.runAll R.recorded duties).Standing service := by
  refine journey_induction (P := fun v => v.Standing service) (fun d hd v now => ?_) h
  rw [tells d hd]
  exact honest_drive now (fits_disconnectRequested v) R

theorem honest_tell {event : PeerEvent} (h : w.Standing service) (fits : w.Fits service a event)
    (R : Radio σ) :
    (∀ c ∈ w.journey R.recorded [.tell a event], Honest service c.before c.after) ∧
      (w.runAll R.recorded [.tell a event]).Standing service := by
  rw [journey_single]
  exact honest_drive h fits R

/-- A handle that is given out begins a record of its own. -/
theorem Stands.attach {p : Peer} {h : Handle} {more : Log} (stands : w.Stands service)
    (here : w.central.registry.get? a = some p) (phase : p.phase = .connecting) (bare : p.handle = none)
    (registry : v.central.registry = (w.central.registry.attach a h).2)
    (grown : v.radio.log = w.radio.log ++ more) (dials : Dials a more (some h)) : v.Stands service := by
  intro k b q known there
  rw [registry] at known there
  rcases Registry.indexed_attach here bare phase known there with
    ⟨rfl, rfl, rfl⟩ | ⟨same, known, q', there, kept⟩
  · have none : v.radio.log.since k = [] := by rw [grown, dials.since]
    obtain ⟨early, route, rfl⟩ := dials.last k rfl
    rw [Log.Dialed, none]
    refine ⟨⟨w.radio.log ++ early, route, by rw [grown, List.append_assoc]⟩, ?_⟩
    show Phase.Reached service k [] p.phase
    rw [phase]
    exact Log.sized_nil
  · have other : ∀ e ∈ more, e.issued? ≠ some k := dials.unissued (by simpa using Ne.symm same)
    have still : q.phase = q'.phase := by rcases kept with rfl | rfl <;> rfl
    obtain ⟨dialed, reached⟩ := stands k b q' known there
    rw [grown, Log.since_append other, still]
    exact ⟨dialed.append other, reached.append fun e he => dials.unasked e he k⟩

theorem Stands.enroll {data : Bytes} (stands : w.Stands service) (orderly : w.central.registry.Orderly)
    (unknown : w.central.registry.contains a = false) :
    ((w.hear (some (.advertisement a data))).enter a).Stands service := by
  have heard : (w.hear (some (.advertisement a data))).Stands service :=
    stands.congr rfl rfl (hear_neutral _)
  intro k b q known there
  have view := Registry.get?_enroll unknown b
  obtain ⟨s, here, -⟩ := orderly.indexed k b known
  have other : b ≠ a := by
    rintro rfl
    rw [Registry.contains, here] at unknown
    cases unknown
  rw [if_neg other] at view
  exact heard k b q known (view ▸ there)

/-- A new peer has no handle yet. -/
theorem preparing_enter {data : Bytes} (h : w.Standing service)
    (unknown : w.central.registry.contains a = false) :
    ((w.hear (some (.advertisement a data))).enter a).Preparing service a
      [.run .pauseScanning none, .run .connect none] [] := by
  refine ⟨h.orderly.enroll unknown, h.stands.enroll h.orderly unknown, by simp, by simp,
    fun up => (by cases up), fun p k here holds => ?_⟩
  have view := Registry.get?_enroll unknown a
  rw [if_pos rfl] at view
  obtain rfl := Option.some.inj (view.symm.trans here)
  cases holds

theorem honest_admission {data : Bytes} (h : w.Standing service) (admits : w.admits a data = true)
    (R : Radio σ) :
    let entered := (w.hear (some (.advertisement a data))).enter a
    (∀ c ∈ entered.journey R.recorded [.admission a], Honest service c.before c.after) ∧
      (entered.runAll R.recorded [.admission a]).Standing service := by
  intro entered
  obtain ⟨honest, last⟩ := honest_settling (preparing_enter h (unknown_of_admits admits)) R
  rw [journey_single]
  exact ⟨honest, last.orderly, last.stands⟩

/-- In a happening peers get ready on connections that are set up, and what holds between operations
holds again at its end. -/
theorem honest_happen (h : w.Standing service) (settings : w.central.settings.service = service)
    (R : Radio σ) (x : Happening σ) :
    (∀ c ∈ w.changes R x, Honest service c.before c.after) ∧ (w.happen R x).Standing service := by
  have opened := opened_opening R w x
  have first : Honest service w (w.opening R x).1 := fun a size ready =>
    absurd ready (opening_unready R w x a size)
  rw [happen_eq, changes]
  generalize (w.opening R x).1 = v at opened first ⊢
  generalize (w.opening R x).2 = duties at opened ⊢
  suffices rest : (∀ c ∈ v.journey R.recorded duties, Honest service c.before c.after) ∧
      (v.runAll R.recorded duties).Standing service by
    exact ⟨List.forall_mem_cons.2 ⟨first, rest.1⟩, rest.2⟩
  have nothing : ∀ v : World (Recorded σ), v.Standing service →
      (∀ c ∈ v.journey R.recorded [], Honest service c.before c.after) ∧
        (v.runAll R.recorded []).Standing service := fun v now => ⟨by simp [journey], now⟩
  cases opened with
  | started =>
    obtain ⟨more, grown, about⟩ := log_scan (scans_start R) w
    exact nothing _ (h.congr rfl grown fun e he => (about e he).neutral)
  | stopped =>
    obtain ⟨more, grown, about⟩ := log_scan (scans_stop R) w
    have stopped := h.congr (v := w.scan (Scanner.stop R.recorded)) rfl grown fun e he =>
      (about e he).neutral
    exact honest_sendAway stopped R Duty.sent_away
  | reset =>
    have gone := registry_reset R w
    refine nothing _ ⟨?_, ?_⟩
    · rw [gone]
      exact Registry.orderly_empty
    · intro k b q known
      simp [gone, Registry.addressFor?] at known
  | sentAway b => exact honest_tell h (fits_disconnectRequested w) R
  | @reached event b told reaches =>
    have heard := h.congr (v := w.hear (some event)) rfl rfl (hear_neutral event)
    exact honest_tell heard (reaches.fits h settings) R
  | admitted admits => exact honest_admission h admits R
  | attached _ here phase bare registry _ _ grown dials =>
    exact nothing _ ⟨registry ▸ h.orderly.attach here bare phase,
      h.stands.attach here phase bare registry grown dials⟩
  | @failed _ v b log _ waits registry _ _ grown dials =>
    have waiting : v.awaitsConnect b = true := (awaitsConnect_congr registry b).trans waits
    exact honest_tell (h.congr registry grown dials.neutral) (fits_connectFailed waiting) R
  | aside _ registry _ _ grown apart =>
    exact nothing _ (h.congr registry grown fun e he => (apart e he).neutral)

/-- Wherever a run leads, every peer that the index leads to has come as far as its phase says. -/
theorem standing_outcome (R : Radio σ) (settings : Settings) (s : σ) (history : List (Happening σ)) :
    (outcome R settings s history).Standing settings.service := by
  induction history using List.reverseRecOn with
  | nil => exact ⟨Registry.orderly_empty, fun h a p known => by cases known⟩
  | append_singleton history x ih =>
    have service := congrArg (·.service) (settings_outcome R settings s history)
    rw [outcome_concat]
    exact (honest_happen ih service R x).2

end

end World

end RadioCentral
