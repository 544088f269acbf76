import RadioCentral.Proofs.Registry.Coherence
import RadioCentral.Proofs.Run.Settling

/-!
Settling a peer comes to its end. Steps call for events and events leave steps to be done, so that the
queue grows while it is drained. But an event that leaves anything to be done brings the peer closer to
its end, and it leaves no more to be done than there are characteristics to switch on or off and a few
steps besides. Follow-up events bring no new characteristics.
-/
namespace RadioCentral

open Registry (Step)

variable {σ : Type}

def PeerEvent.offered : PeerEvent → Nat
  | .servicesDiscovered found => (found.getD []).length
  | .connectRequested | .connectFailed | .linkUp | .linkDown | .discoveryRefused | .enabled _
  | .enableFailed _ | .negotiationUnavailable | .unitSizeReported _ | .disableSettled _ | .disableRefused
  | .disconnectRequested => 0

theorem PeerEvent.offered_of_isFollowUp {event : PeerEvent} (follows : event.isFollowUp = true) :
    event.offered = 0 := by
  cases event <;> first | rfl | cases follows

def PeerEvent.offers : List PeerEvent → Nat
  | [] => 0
  | event :: events => event.offered + offers events

theorem PeerEvent.offers_append (events more : List PeerEvent) :
    offers (events ++ more) = offers events + offers more := by
  induction events with
  | nil => exact (Nat.zero_add _).symm
  | cons event events ih => simp only [List.cons_append, offers, ih, Nat.add_assoc]

/-- What a step puts into the record is short. For the steps about the scan this is not known from it. -/
theorem Carried.length_le {step : Step} {log : Log} {event : Option PeerEvent}
    (carried : Carried step log event) :
    (∃ handle, step = .run .pauseScanning handle ∨ step = .run .resumeScanning handle) ∨
      log.length ≤ 2 := by
  cases carried with
  | @scan action handle log what => exact Or.inl ⟨handle, by rcases what with rfl | rfl <;> simp⟩
  | subscribed switched | unsubscribed switched => exact Or.inr (by cases switched <;> simp)
  | released | queued | unqueued | asked | silent | unlinked => exact Or.inr (by simp)

/-! ### What one event leaves to be done -/

namespace Peer

variable {policy : LinkPolicy} {p q : Peer} {event : PeerEvent} {actions before : List Action}

theorem length_leavingActions (disconnect : Bool) (p : Peer) :
    (p.leavingActions disconnect).length ≤ p.notifyTargets.length + 1 := by
  unfold leavingActions
  split <;> simp

theorem Proceeds.length_actions (moved : p.Proceeds policy event q actions) :
    actions.length ≤ p.notifyTargets.length + event.offered + 2 := by
  cases moved with
  | @subscribe cs =>
    have fewer : (wanted policy cs).length ≤ cs.length := List.length_filter_le _ _
    simp only [List.length_map, PeerEvent.offered, Option.getD_some]
    omega
  | leave => exact Nat.le_trans (length_leavingActions _ p) (by omega)
  | request | linkUp | reject | negotiate | ready | negotiated | unnegotiated | note | enabled | settled
  | late => simp

theorem Subscribed.length_targets (done : p.Subscribed policy event q) :
    q.notifyTargets.length ≤ p.notifyTargets.length := by
  cases done with
  | nothingWanted _ _ none => simp [found, none]
  | lastEnabled => exact Nat.le_refl _

theorem Proceeds.length_targets (moved : p.Proceeds policy event q actions) :
    q.notifyTargets.length ≤ p.notifyTargets.length + event.offered := by
  cases moved with
  | @subscribe cs =>
    have fewer : (wanted policy cs).length ≤ cs.length := List.length_filter_le _ _
    simp only [subscribing, found, PeerEvent.offered, Option.getD_some]
    omega
  | negotiate done | ready done => exact Nat.le_add_right_of_le done.length_targets
  | request | linkUp | reject | negotiated | unnegotiated | leave | note | enabled | settled | late =>
    exact Nat.le_add_right _ _

theorem Ends.length_before (ended : p.Ends event before) :
    before.length ≤ p.notifyTargets.length + 1 := by
  cases ended with
  | leave => exact length_leavingActions _ p
  | connectFailed | linkDown | lastSettled | disableRefused => simp

end Peer

namespace Registry

/-- How many characteristics the peer of an address is to be notified of. -/
def breadth (r : Registry) (a : Address) : Nat :=
  match r.get? a with
  | some p => p.notifyTargets.length
  | none => 0

theorem breadth_of_get? {r : Registry} {a : Address} {p : Peer} (here : r.get? a = some p) :
    r.breadth a = p.notifyTargets.length := by
  simp only [breadth, here]

/-- One event leaves a bounded number of steps to be done, and the peer is to be notified of no more
characteristics than before or than the event brought. -/
theorem advance_bounded (policy : LinkPolicy) (a : Address) (event : PeerEvent) (r : Registry) :
    (r.advance policy a event).1.length ≤ r.breadth a + event.offered + 4 ∧
      (r.advance policy a event).2.breadth a ≤ r.breadth a + event.offered := by
  have spec := r.advance_spec policy a event
  generalize (r.advance policy a event).1 = steps at spec ⊢
  generalize (r.advance policy a event).2 = after at spec ⊢
  cases spec with
  | ignored => exact ⟨Nat.zero_le _, Nat.le_add_right _ _⟩
  | kept here moved =>
    have there := (get?_putBack here moved a).trans (if_pos rfl)
    rw [breadth_of_get? here, breadth_of_get? there, List.length_map]
    exact ⟨Nat.le_trans moved.length_actions (by omega), moved.length_targets⟩
  | @ended p before here ended =>
    have few := ended.length_before
    have one : p.handle.toList.length ≤ 1 := by cases p.handle <;> simp
    have none : (r.remove a).2.breadth a = 0 := by simp only [breadth, get?_remove_self]
    rw [breadth_of_get? here, none]
    simp only [List.length_append, List.length_map, List.length_cons, List.length_nil]
    omega

end Registry

/-! ### The loop -/

namespace World

/-- What is left to be done for a peer, and the world it is to be done in. -/
structure Loop (σ : Type) where
  steps : List Step
  events : List PeerEvent
  world : World σ

/-- What may pass between two turns: everything but the peers and what is asked of the radio. -/
def Between (w v : World (Recorded σ)) : Prop :=
  v.central.registry = w.central.registry ∧ v.radio.log = w.radio.log

/-- Some turns of the loop, with the number of steps carried out and of events applied. A step comes
before any event. From turn to turn the radio may get into any other state. -/
inductive Turns (R : Radio σ) (a : Address) :
    Loop (Recorded σ) → Nat → Nat → Loop (Recorded σ) → Prop where
  | still {l : Loop (Recorded σ)} : Turns R a l 0 0 l
  | execute {step : Step} {steps : List Step} {events : List PeerEvent} {w v : World (Recorded σ)}
      {m n : Nat} {l : Loop (Recorded σ)} (between : Between w v)
      (rest : Turns R a ⟨steps, events ++ (v.execute R.recorded a step).1.toList,
        (v.execute R.recorded a step).2⟩ m n l) : Turns R a ⟨step :: steps, events, w⟩ (m + 1) n l
  | transition {event : PeerEvent} {events : List PeerEvent} {w v : World (Recorded σ)} {m n : Nat}
      {l : Loop (Recorded σ)} (between : Between w v)
      (rest : Turns R a ⟨(v.transition R.recorded a event).1, events,
        (v.transition R.recorded a event).2⟩ m n l) : Turns R a ⟨[], event :: events, w⟩ m (n + 1) l

namespace Loop

def width (a : Address) (l : Loop σ) : Nat :=
  l.world.central.registry.breadth a + PeerEvent.offers l.events

def demand (a : Address) (l : Loop σ) : Nat :=
  l.steps.length + l.world.central.registry.distance a * (l.width a + 4)

end Loop

variable {R : Radio σ} {a : Address} {w v : World (Recorded σ)} {l l' : Loop (Recorded σ)} {m n : Nat}

theorem demand_execute (between : Between w v) (step : Step) (steps : List Step) (events : List PeerEvent) :
    (Loop.mk steps (events ++ (v.execute R.recorded a step).1.toList)
      (v.execute R.recorded a step).2).demand a + 1 = (Loop.mk (step :: steps) events w).demand a := by
  obtain ⟨log, -, carried⟩ := carried_execute R a step v
  have none : PeerEvent.offers (v.execute R.recorded a step).1.toList = 0 := by
    cases called : (v.execute R.recorded a step).1 with
    | none => rfl
    | some event => exact PeerEvent.offered_of_isFollowUp (carried.isFollowUp event called)
  simp only [Loop.demand, Loop.width, registry_execute, between.1, PeerEvent.offers_append, none,
    List.length_cons, Nat.add_zero]
  omega

/-- An event that leaves steps to be done brings the peer on, and this makes up for them. -/
theorem demand_transition (between : Between w v) (event : PeerEvent) (events : List PeerEvent) :
    (Loop.mk (v.transition R.recorded a event).1 events (v.transition R.recorded a event).2).demand a ≤
      (Loop.mk [] (event :: events) w).demand a := by
  obtain ⟨few, narrow⟩ := v.central.registry.advance_bounded (v.policy R.recorded) a event
  have closer := Registry.distance_advance (v.policy R.recorded) a event v.central.registry
  simp only [Loop.demand, Loop.width, transition, between.1, PeerEvent.offers, List.length_nil,
    Nat.zero_add] at few narrow closer ⊢
  generalize w.central.registry.advance (v.policy R.recorded) a event = after at few narrow closer ⊢
  have wide : after.2.breadth a + PeerEvent.offers events + 4 ≤
      w.central.registry.breadth a + (event.offered + PeerEvent.offers events) + 4 := by omega
  have share := Nat.mul_le_mul_left (after.2.distance a) wide
  rcases closer with less | ⟨idle, same⟩
  · calc after.1.length + after.2.distance a * (after.2.breadth a + PeerEvent.offers events + 4)
        ≤ (after.2.distance a + 1) *
            (w.central.registry.breadth a + (event.offered + PeerEvent.offers events) + 4) := by
          rw [Nat.succ_mul]
          omega
      _ ≤ _ := Nat.mul_le_mul_right _ less
  · rw [idle, List.length_nil, Nat.zero_add, ← same]
    exact share

/-! ### What is asked of the radio -/

theorem length_halt (R : Radio σ) (c : Scanner) (s : Recorded σ) :
    (c.halt R.recorded s).2.log.length ≤ s.log.length + 1 := by
  unfold Scanner.halt
  split <;> simp [Radio.recorded]

theorem length_activate (R : Radio σ) (c : Scanner) (s : Recorded σ) :
    (c.activate R.recorded s).2.log.length ≤ s.log.length + 1 := by
  unfold Scanner.activate
  split <;> simp [Radio.recorded]

theorem length_resume (R : Radio σ) (c : Scanner) (s : Recorded σ) :
    (c.resume R.recorded s).2.log.length ≤ s.log.length + 1 := by
  unfold Scanner.resume
  split
  · exact length_activate R c s
  · exact Nat.le_succ _

/-- A step makes two requests at most: a notification is switched and its descriptor is written. -/
theorem length_execute (R : Radio σ) (a : Address) (step : Step) (w : World (Recorded σ)) :
    (w.execute R.recorded a step).2.radio.log.length ≤ w.radio.log.length + 2 := by
  obtain ⟨log, grown, carried⟩ := carried_execute R a step w
  rcases carried.length_le with ⟨handle, rfl | rfl⟩ | short
  · exact Nat.le_succ_of_le (length_halt R w.central.scanner w.radio)
  · simp only [execute, perform]
    split
    · exact Nat.le_succ_of_le (length_resume R w.central.scanner w.radio)
    · exact Nat.le_add_right _ _
  · rw [grown, List.length_append]
    omega

/-! ### The end -/

theorem Turns.bounded (turns : Turns R a l m n l') :
    m + l'.demand a ≤ l.demand a ∧ n + l'.events.length ≤ l.events.length + m ∧
      l'.world.radio.log.length ≤ l.world.radio.log.length + 2 * m := by
  induction turns with
  | still => exact ⟨by omega, by omega, by omega⟩
  | @execute step steps events w v m n l between rest ih =>
    obtain ⟨demand, queued, asked⟩ := ih
    have less := demand_execute (R := R) (a := a) between step steps events
    have two := length_execute R a step v
    have one : (v.execute R.recorded a step).1.toList.length ≤ 1 := by
      cases (v.execute R.recorded a step).1 <;> simp
    rw [between.2] at two
    simp only [List.length_append] at queued asked ⊢
    exact ⟨by omega, by omega, by omega⟩
  | @transition event events w v m n l between rest ih =>
    obtain ⟨demand, queued, asked⟩ := ih
    have less := demand_transition (R := R) (a := a) between event events
    have silent : (v.transition R.recorded a event).2.radio.log = w.radio.log := between.2
    simp only [silent, List.length_cons] at queued asked ⊢
    exact ⟨by omega, by omega, by omega⟩

/-- The loop stops only when nothing is left to be done. -/
theorem turns_none_iff :
    (∀ m n l', Turns R a l m n l' → m = 0 ∧ n = 0) ↔ l.steps = [] ∧ l.events = [] := by
  obtain ⟨steps, events, w⟩ := l
  cases steps with
  | cons step steps =>
    refine iff_of_false (fun stops => ?_) (by simp)
    have more := stops 1 0 _ (.execute (v := w) ⟨rfl, rfl⟩ .still)
    simp at more
  | nil =>
    cases events with
    | cons event events =>
      refine iff_of_false (fun stops => ?_) (by simp)
      have more := stops 0 1 _ (.transition (v := w) ⟨rfl, rfl⟩ .still)
      simp at more
    | nil =>
      refine iff_of_true (fun m n l' turns => ?_) ⟨rfl, rfl⟩
      cases turns
      exact ⟨rfl, rfl⟩

/-- Settling is the run in which nothing passes between the turns. -/
theorem turns_settle (R : Radio σ) (a : Address) (steps : List Step) (events : List PeerEvent)
    (w : World (Recorded σ)) :
    ∃ m n, Turns R a ⟨steps, events, w⟩ m n ⟨[], [], w.settle R.recorded a steps events⟩ := by
  fun_induction settle R.recorded a steps events w with
  | case1 events w step steps r ih =>
    obtain ⟨m, n, rest⟩ := ih
    exact ⟨m + 1, n, .execute ⟨rfl, rfl⟩ rest⟩
  | case2 w event events r ih =>
    obtain ⟨m, n, rest⟩ := ih
    exact ⟨m, n + 1, .transition ⟨rfl, rfl⟩ rest⟩
  | case3 w => exact ⟨0, 0, .still⟩

/-- Settling ends. From any peers, steps and events, and whatever the radio does or answers from turn to
turn, the steps that can be carried out, the events that can be applied and the requests that can be made
are bounded beforehand, and a run that cannot go on has nothing left to do. Such a run is there. -/
theorem settling_ends (R : Radio σ) (a : Address) (l : Loop (Recorded σ)) :
    (∃ m n, Turns R a l m n ⟨[], [], l.world.settle R.recorded a l.steps l.events⟩) ∧
      ∀ m n l', Turns R a l m n l' →
        m ≤ l.demand a ∧ n ≤ l.events.length + l.demand a ∧
        l'.world.radio.log.length ≤ l.world.radio.log.length + 2 * l.demand a ∧
        ((∀ m n l'', Turns R a l' m n l'' → m = 0 ∧ n = 0) ↔ l'.steps = [] ∧ l'.events = []) := by
  refine ⟨turns_settle R a l.steps l.events l.world, fun m n l' turns => ?_⟩
  obtain ⟨demand, queued, asked⟩ := turns.bounded
  exact ⟨by omega, by omega, by omega, turns_none_iff⟩

end World

end RadioCentral
