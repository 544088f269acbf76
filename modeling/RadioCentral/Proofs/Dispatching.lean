import RadioCentral.Proofs.CentralCoherence
import RadioCentral.Proofs.Run.Opening

/-!
A connection is asked for once in the life of a peer. The queue may hold several attempts for an
address, some of them left over from peers that are gone, and attempts may be taken up without having
been queued; but only a connecting peer without a handle is dialed, and dialing gives it its handle or
ends it.
-/
namespace RadioCentral

open Registry (Step)

variable {σ : Type}

def Exchange.isDialed : Exchange → Bool
  | dialed .. => true
  | asked .. | told _ => false

def Log.dials (log : Log) : Log := log.filter Exchange.isDialed

@[simp] theorem Log.dials_append (l m : Log) : Log.dials (l ++ m) = Log.dials l ++ Log.dials m :=
  List.filter_append ..

theorem Log.dials_eq_nil {log : Log} (none : ∀ e ∈ log, e.isDialed = false) : log.dials = [] :=
  List.filter_eq_nil_iff.2 fun e he => by simp [none e he]

theorem Exchange.AboutScan.undialed {e : Exchange} (about : e.AboutScan) : e.isDialed = false := by
  obtain ⟨request, answer, rfl, -⟩ := about
  rfl

/-- Steps never dial. -/
theorem Carried.dials_eq {step : Step} {log : Log} {event : Option PeerEvent}
    (carried : Carried step log event) : log.dials = [] := by
  cases carried with
  | scan _ about => exact Log.dials_eq_nil fun e he => (about e he).undialed
  | subscribed switched | unsubscribed switched => cases switched <;> rfl
  | released | queued | unqueued | asked | silent | unlinked => rfl

theorem Dials.dials_eq {a : Address} {log : Log} {answer : Option Handle} (dials : Dials a log answer) :
    log.dials = log := by
  induction dials with
  | exhausted | accepted => rfl
  | refused route rest ih => exact congrArg (List.cons _) ih

namespace Registry

/-- While an address has a peer, it is one with a given handle. -/
def Bound (a : Address) (h : Handle) (r : Registry) : Prop :=
  ∀ p, r.get? a = some p → p.handle = some h

theorem Bound.advance {a : Address} {h : Handle} {r : Registry} (bound : r.Bound a h)
    (policy : LinkPolicy) (b : Address) (event : PeerEvent) :
    (r.advance policy b event).2.Bound a h := by
  intro q there
  by_cases same : a = b
  · subst same
    obtain ⟨p, here, kept⟩ := handle_advance there
    rw [kept]
    exact bound p here
  · rw [get?_advance_ne same] at there
    exact bound q there

end Registry

namespace World

/-- The address whose attempt an operation takes up, whether or not it comes to anything. -/
def takesUp? (w : World (Recorded σ)) : Happening σ → Option Address
  | .operation (.initiate a) => some a
  | .operation .dispatchNext => w.central.dispatch.queue.head?
  | _ => none

/-- An attempt is taken up for a peer that is connecting and has no handle. -/
def Tries (w : World (Recorded σ)) (x : Happening σ) (a : Address) : Prop :=
  w.takesUp? x = some a ∧
    ∃ p, w.central.registry.get? a = some p ∧ p.phase = .connecting ∧ p.handle = none

/-- What dialing comes to: the peer takes the handle it was given, or it is gone and its end reported. -/
def Resolved (a : Address) (w w' : World σ) : Option Handle → Prop
  | some h => (∃ p, w'.central.registry.get? a = some p ∧ p.handle = some h) ∧
      w'.central.registry.addressFor? h = some a
  | none => w'.central.registry.contains a = false ∧
      w'.central.reports = w.central.reports ++ [.disconnected a]

theorem awaitsConnect_iff_bare {w : World σ} {a : Address} :
    w.awaitsConnect a = true ↔
      ∃ p, w.central.registry.get? a = some p ∧ p.phase = .connecting ∧ p.handle = none := by
  refine ⟨bare_of_awaitsConnect, ?_⟩
  rintro ⟨p, here, phase, bare⟩
  simp [awaitsConnect, here, phase, bare]

section

variable (R : Radio σ)

theorem dials_settle (a : Address) (steps : List Step) (events : List PeerEvent)
    (w : World (Recorded σ)) :
    (w.settle R.recorded a steps events).radio.log.dials = w.radio.log.dials := by
  refine settle_induction (R := R.recorded) (a := a)
    (I := fun _ _ (v : World (Recorded σ)) => v.radio.log.dials = w.radio.log.dials)
    (fun step steps events v now => ?_) (fun _ _ _ now => now) rfl
  obtain ⟨log, grown, carried⟩ := carried_execute R a step v
  rw [grown, Log.dials_append, carried.dials_eq, List.append_nil, now]

theorem dials_drive (a : Address) (event : PeerEvent) (w : World (Recorded σ)) :
    (w.drive R.recorded a event).radio.log.dials = w.radio.log.dials :=
  dials_settle R a [] [event] w

theorem dials_scan {f : Scanner → Recorded σ → Scanner × Recorded σ} (hf : Scans f)
    (w : World (Recorded σ)) : (w.scan f).radio.log.dials = w.radio.log.dials := by
  obtain ⟨log, grown, about⟩ := log_scan hf w
  rw [grown, Log.dials_append, Log.dials_eq_nil fun e he => (about e he).undialed, List.append_nil]

theorem dials_hear (event : Option RadioEvent) (w : World (Recorded σ)) :
    (w.hear event).radio.log.dials = w.radio.log.dials := by
  cases event with
  | none => rw [hear_none]
  | some event => simp [hear, Log.dials, Exchange.isDialed]

theorem dials_ask (request : Request) (w : World (Recorded σ)) :
    (w.ask R.recorded request).2.radio.log.dials = w.radio.log.dials := by
  simp [log_ask, Log.dials, Exchange.isDialed]

theorem dials_reset (order : Registry.Order) (w : World (Recorded σ)) :
    (w.reset R.recorded order).radio.log.dials = w.radio.log.dials := by
  have all : ∀ (handles : List Handle) (v : World (Recorded σ)),
      (handles.foldl (fun w h => (w.ask R.recorded (.release h)).2) v).radio.log.dials =
        v.radio.log.dials := by
    intro handles
    induction handles with
    | nil => exact fun v => rfl
    | cons h handles ih => exact fun v => (ih _).trans (dials_ask R (.release h) v)
  exact all _ _

theorem dials_stop (order : Registry.Order) (w : World (Recorded σ)) :
    (w.stop R.recorded order).radio.log.dials = w.radio.log.dials := by
  have all : ∀ (addresses : List Address) (v : World (Recorded σ)),
      (addresses.foldl (fun w a => w.disconnect R.recorded a) v).radio.log.dials =
        v.radio.log.dials := by
    intro addresses
    induction addresses with
    | nil => exact fun v => rfl
    | cons a addresses ih => exact fun v => (ih _).trans (dials_drive R a .disconnectRequested v)
  exact (all _ _).trans (dials_scan (scans_stop R) w)

theorem dials_onHandle (h : Handle) (event : PeerEvent) (w : World (Recorded σ)) :
    (w.onHandle R.recorded h event).radio.log.dials = w.radio.log.dials := by
  unfold onHandle
  split
  · exact dials_drive R _ event w
  · rfl

theorem dials_onRadioEvent (event : RadioEvent) (w : World (Recorded σ)) :
    (w.onRadioEvent R.recorded event).radio.log.dials = w.radio.log.dials := by
  cases event with
  | advertisement a data =>
    simp only [onRadioEvent, onAdvertisement]
    split
    · exact dials_settle R a _ [] _
    · rfl
  | connected | disconnected | servicesDiscovered | unitSizeChanged => exact dials_onHandle R _ _ w
  | descriptorWritten =>
    simp only [onRadioEvent]
    split
    · exact dials_onHandle R _ _ w
    · rfl
  | characteristicChanged =>
    simp only [onRadioEvent, onValue]
    (repeat' split) <;> rfl
  | characteristicWritten =>
    simp only [onRadioEvent, onWritten]
    split <;> rfl

theorem dials_write (data : Bytes) (c : Uuid) (a : Address) (w : World (Recorded σ)) :
    (w.write R.recorded data c a).2.radio.log.dials = w.radio.log.dials := by
  unfold write
  split
  · rfl
  · split
    · rfl
    · split
      · rfl
      · split
        · split
          · exact dials_ask R _ w
          · rfl
        · rfl

/-- What takes no attempt up does not dial. -/
theorem dials_of_takesUp_none {w : World (Recorded σ)} {x : Happening σ} (none : w.takesUp? x = none) :
    (w.happen R x).radio.log.dials = w.radio.log.dials := by
  cases x with
  | radioChanges change => rfl
  | operation o =>
    rw [← dials_hear o.event? w]
    cases o with
    | initiate a => cases none
    | dispatchNext =>
      have idle : w.central.dispatch.queue = [] := List.head?_eq_none_iff.1 none
      simp only [happen, Operation.event?, hear_none, step, dispatchNext, takeAttempt, idle]
    | start => exact dials_scan (scans_start R) _
    | stop order => exact dials_stop R order _
    | reset order => exact dials_reset R order _
    | disconnect a => exact dials_drive R a .disconnectRequested _
    | write data c a => exact dials_write R data c a _
    | radioEvent event => exact dials_onRadioEvent R event _
    | registerNotify | setNonce | setGovernor | claimDispatch | dropDispatch => rfl

/-- What takes an attempt up looks at the peer as it is. -/
theorem happen_takesUp {w : World (Recorded σ)} {x : Happening σ} {a : Address}
    (taken : w.takesUp? x = some a) :
    ∃ v : World (Recorded σ), v.central.registry = w.central.registry ∧
      v.central.reports = w.central.reports ∧ v.radio = w.radio ∧
      w.happen R x = v.initiate R.recorded a := by
  cases x with
  | radioChanges change => cases taken
  | operation o =>
    cases o with
    | initiate b =>
      obtain rfl := Option.some.inj taken
      exact ⟨w.hear none, rfl, rfl, by rw [hear_none], rfl⟩
    | dispatchNext =>
      obtain ⟨queue, queued⟩ := List.head?_eq_some_iff.1 taken
      let popped : World (Recorded σ) :=
        { w with central := { w.central with dispatch := { w.central.dispatch with queue } } }
      refine ⟨popped, rfl, rfl, rfl, ?_⟩
      simp only [happen, Operation.event?, hear_none, step, dispatchNext, takeAttempt, queued, popped]
    | start | stop | reset | disconnect | write | registerNotify | setNonce | setGovernor | radioEvent
    | claimDispatch | dropDispatch => cases taken

/-- The end of a peer without a handle is reported, and the scan may go on. -/
theorem drive_abandoned {v : World σ} {a : Address} {p : Peer} (here : v.central.registry.get? a = some p)
    (phase : p.phase = .connecting) (bare : p.handle = none) :
    v.drive R a .connectFailed =
      let left := (v.withRegistry (v.central.registry.remove a).2).report (.disconnected a)
      if left.central.registry.connecting = [] then left.scan (Scanner.resume R) else left := by
  rw [drive_eq, transition, Registry.advance_abandoned here phase bare]
  exact settle_left R a none _

/-- Dialing for a peer that waits for it is resolved at once. -/
theorem resolved_initiate {v : World (Recorded σ)} {a : Address} {p : Peer}
    (here : v.central.registry.get? a = some p) (phase : p.phase = .connecting) (bare : p.handle = none) :
    ∃ tried answer, (v.initiate R.recorded a).radio.log.dials = v.radio.log.dials ++ tried ∧
      Dials a tried answer ∧ v.Resolved a (v.initiate R.recorded a) answer := by
  have waits : v.awaitsConnect a = true := awaitsConnect_iff_bare.2 ⟨p, here, phase, bare⟩
  obtain ⟨log, s, grown, outcome⟩ := dial_spec R waits
  rcases outcome with ⟨refusal, dialed, dials⟩ | ⟨q, h, dialed, dials, there, -, -⟩
  · refine ⟨log, none, ?_, dials, ?_⟩
    · rw [initiate_refused R.recorded waits dialed, dials_drive, grown, Log.dials_append, dials.dials_eq]
    · rw [initiate_refused R.recorded waits dialed,
        drive_abandoned R.recorded (v := { v with radio := s }) here phase bare]
      have gone : (v.central.registry.remove a).2.contains a = false := by
        rw [Registry.contains, Registry.get?_remove_self]
        rfl
      dsimp only
      split <;> exact ⟨gone, rfl⟩
  · refine ⟨log, some h, ?_, dials, ?_⟩
    · rw [initiate_accepted R.recorded waits dialed, grown, Log.dials_append, dials.dials_eq]
    · rw [initiate_accepted R.recorded waits dialed]
      have view := Registry.get?_attach (h := h) here bare phase a
      have known := Registry.addressFor?_attach (h := h) here bare phase h
      rw [if_pos rfl] at view known
      exact ⟨⟨_, view, rfl⟩, known⟩

end

section

variable {R : Radio σ} {a : Address} {h : Handle}

theorem bound_runAll {duties : List Duty} {w : World σ} (bound : w.central.registry.Bound a h) :
    (w.runAll R duties).central.registry.Bound a h := by
  refine runAll_induction (P := fun v => v.central.registry.Bound a h) (fun d _ step v now => ?_)
    (fun d _ event v now => now.advance _ d.address event) bound
  rw [registry_execute]
  exact now

/-- A peer keeps its handle for as long as it is there. -/
theorem bound_happen {w : World (Recorded σ)} (known : w.central.registry.contains a = true)
    (bound : w.central.registry.Bound a h) (x : Happening σ) :
    (w.happen R x).central.registry.Bound a h := by
  have opened := opened_opening R w x
  rw [happen_eq]
  generalize (w.opening R x).1 = v at opened ⊢
  generalize (w.opening R x).2 = duties at opened ⊢
  refine bound_runAll ?_
  obtain ⟨p, here⟩ := Registry.contains_iff.1 known
  cases opened with
  | started | stopped | sentAway | reached => exact bound
  | failed _ _ registry | aside _ registry =>
    rw [registry]
    exact bound
  | reset =>
    rw [registry_reset]
    intro q there
    cases there
  | @admitted b data admits =>
    have unknown := unknown_of_admits admits
    have other : a ≠ b := by
      rintro rfl
      rw [unknown] at known
      cases known
    intro q there
    rw [show (((w.hear (some (.advertisement b data))).enter b).central.registry.get? a) = _ from
      Registry.get?_enroll unknown a, if_neg other] at there
    exact bound q there
  | @attached _ _ b _ _ _ _ there phase bare registry =>
    have other : a ≠ b := by
      rintro rfl
      have holds := bound _ there
      rw [bare] at holds
      cases holds
    intro q now
    rw [registry, Registry.get?_attach there bare phase, if_neg other] at now
    exact bound q now

theorem bound_outcome {settings : Settings} {s : σ} {history after : List (Happening σ)}
    (bound : (outcome R settings s history).central.registry.Bound a h)
    (known : ∀ more, more <+: after →
      (outcome R settings s (history ++ more)).central.registry.contains a = true) :
    (outcome R settings s (history ++ after)).central.registry.Bound a h := by
  induction after using List.reverseRecOn with
  | nil => rwa [List.append_nil]
  | append_singleton after y ih =>
    have before := ih fun more hm => known more (hm.trans (List.prefix_append after [y]))
    rw [← List.append_assoc, outcome_concat]
    exact bound_happen (known after (List.prefix_append after [y])) before y

/-- What does not try to connect does not dial. -/
theorem dials_of_not_tries {w : World (Recorded σ)} {x : Happening σ} (idle : ∀ b, ¬ w.Tries x b) :
    (w.happen R x).radio.log.dials = w.radio.log.dials := by
  cases taken : w.takesUp? x with
  | none => exact dials_of_takesUp_none R taken
  | some b =>
    obtain ⟨v, registry, -, radio, happens⟩ := happen_takesUp R taken
    have past : v.awaitsConnect b = false := by
      rw [← Bool.not_eq_true, awaitsConnect_iff_bare, registry]
      exact fun waits => idle b ⟨taken, waits⟩
    rw [happens, initiate_past R.recorded past, radio]

theorem resolved_of_tries {w : World (Recorded σ)} {x : Happening σ} (tries : w.Tries x a) :
    ∃ tried answer, (w.happen R x).radio.log.dials = w.radio.log.dials ++ tried ∧
      Dials a tried answer ∧ w.Resolved a (w.happen R x) answer := by
  obtain ⟨taken, p, here, phase, bare⟩ := tries
  obtain ⟨v, registry, reports, radio, happens⟩ := happen_takesUp R taken
  obtain ⟨tried, answer, grown, dials, resolved⟩ :=
    resolved_initiate R (registry ▸ here) phase bare
  rw [happens, ← radio]
  refine ⟨tried, answer, grown, dials, ?_⟩
  cases answer with
  | some k => exact resolved
  | none => exact ⟨resolved.1, reports ▸ resolved.2⟩

theorem Resolved.bound {w w' : World σ} (resolved : w.Resolved a w' (some h)) :
    w'.central.registry.Bound a h := by
  obtain ⟨⟨p, here, holds⟩, -⟩ := resolved
  intro q there
  obtain rfl : p = q := Option.some.inj (here.symm.trans there)
  exact holds

end

/-- Dispatch is exact. Wherever a run leads, the radio is asked to connect only when an attempt is taken
up for a peer that is connecting and has no handle. Its routes are then tried once, and afterwards the
peer has the handle that was accepted and keeps it for as long as it is there, or it is gone and its
end was reported. Whatever is taken up later, whether it was left over or not, dials the address again
only after that peer has gone. -/
theorem dialed_once (R : Radio σ) (settings : Settings) (s : σ) (before : List (Happening σ))
    (x : Happening σ) :
    let w := outcome R settings s before
    let w' := outcome R settings s (before ++ [x])
    ((∀ a, ¬ w.Tries x a) → w'.radio.log.dials = w.radio.log.dials) ∧
    ∀ a, w.Tries x a →
      (∃ tried answer, w'.radio.log.dials = w.radio.log.dials ++ tried ∧ Dials a tried answer ∧
        w.Resolved a w' answer ∧
        ∀ h ∈ answer, ∀ after, (∀ more, more <+: after →
            (outcome R settings s (before ++ [x] ++ more)).central.registry.contains a = true) →
          ∃ p, (outcome R settings s (before ++ [x] ++ after)).central.registry.get? a = some p ∧
            p.handle = some h) ∧
      ∀ after y, (outcome R settings s (before ++ [x] ++ after)).Tries y a →
        ∃ more, more <+: after ∧
          (outcome R settings s (before ++ [x] ++ more)).central.registry.contains a = false := by
  intro w w'
  have happens : w' = w.happen R x := outcome_concat R settings s before x
  refine ⟨fun idle => happens ▸ dials_of_not_tries idle, fun a tries => ?_⟩
  obtain ⟨tried, answer, grown, dials, resolved⟩ := resolved_of_tries (R := R) tries
  rw [← happens] at grown resolved
  refine ⟨⟨tried, answer, grown, dials, resolved, ?_⟩, ?_⟩
  · rintro h rfl after known
    have bound := bound_outcome resolved.bound known
    obtain ⟨p, here⟩ := Registry.contains_iff.1 (known after (List.prefix_refl after))
    exact ⟨p, here, bound p here⟩
  · rintro after y ⟨-, p, here, -, bare⟩
    by_contra there
    have known : ∀ more, more <+: after →
        (outcome R settings s (before ++ [x] ++ more)).central.registry.contains a = true :=
      fun more hm => by simpa using fun gone => there ⟨more, hm, gone⟩
    cases answer with
    | none =>
      have still := known [] List.nil_prefix
      rw [List.append_nil, resolved.1] at still
      cases still
    | some h =>
      have holds := bound_outcome resolved.bound known p here
      rw [bare] at holds
      cases holds

end World

namespace Encounter

def doubled : List (Happening SimulatedRadio) :=
  [.operation .start, .operation (.radioEvent (.advertisement ⟨"a"⟩ invitation)),
    .operation (.disconnect ⟨"a"⟩), .operation (.radioEvent (.advertisement ⟨"a"⟩ invitation))]

def redoubled : List (Happening SimulatedRadio) :=
  [.operation .dispatchNext, .operation (.disconnect ⟨"a"⟩),
    .operation (.radioEvent (.advertisement ⟨"a"⟩ invitation))]

end Encounter

namespace World

open Encounter

/-- The attempt left over from the first peer dials for the second, and the second attempt is passed
over; a third peer waits to be dialed after the second has gone. -/
theorem dialed_once_doubled :
    let R := SimulatedRadio.radio
    let next : Happening SimulatedRadio := .operation .dispatchNext
    let w := outcome R settings {} doubled
    let u := outcome R settings {} (doubled ++ [next])
    let v := outcome R settings {} (doubled ++ [next] ++ redoubled)
    w.central.dispatch.queue = [⟨"a"⟩, ⟨"a"⟩] ∧ w.Tries next ⟨"a"⟩ ∧ v.Tries next ⟨"a"⟩ ∧
      (∃ tried answer, u.radio.log.dials = w.radio.log.dials ++ tried ∧ Dials ⟨"a"⟩ tried answer ∧
        w.Resolved ⟨"a"⟩ u answer) ∧
      (outcome R settings {} (doubled ++ [next] ++ [next])).radio.log.dials = u.radio.log.dials ∧
      ∃ more, more <+: redoubled ∧
        (outcome R settings {} (doubled ++ [next] ++ more)).central.registry.contains ⟨"a"⟩ = false := by
  intro R next w u v
  have queue : (outcome SimulatedRadio.radio settings {} doubled).central.dispatch.queue =
      [⟨"a"⟩, ⟨"a"⟩] := by cbv
  have waits : (outcome SimulatedRadio.radio settings {} doubled).awaitsConnect ⟨"a"⟩ = true := by cbv
  have second : (outcome SimulatedRadio.radio settings {}
      (doubled ++ [.operation .dispatchNext])).central.dispatch.queue = [⟨"a"⟩] := by cbv
  have linked : (outcome SimulatedRadio.radio settings {}
      (doubled ++ [.operation .dispatchNext])).awaitsConnect ⟨"a"⟩ = false := by cbv
  have third : (outcome SimulatedRadio.radio settings {}
      (doubled ++ [.operation .dispatchNext] ++ redoubled)).central.dispatch.queue.head? =
        some ⟨"a"⟩ := by cbv
  have anew : (outcome SimulatedRadio.radio settings {}
      (doubled ++ [.operation .dispatchNext] ++ redoubled)).awaitsConnect ⟨"a"⟩ = true := by cbv
  have first : w.Tries next ⟨"a"⟩ := ⟨congrArg List.head? queue, awaitsConnect_iff_bare.1 waits⟩
  have later : v.Tries next ⟨"a"⟩ := ⟨third, awaitsConnect_iff_bare.1 anew⟩
  have idle : ∀ b, ¬ u.Tries next b := by
    rintro b ⟨taken, waiting⟩
    obtain rfl : ⟨"a"⟩ = b := Option.some.inj ((congrArg List.head? second).symm.trans taken)
    exact Bool.false_ne_true (linked.symm.trans (awaitsConnect_iff_bare.2 waiting))
  obtain ⟨⟨tried, answer, grown, once, resolved, -⟩, between⟩ :=
    (dialed_once R settings {} doubled next).2 ⟨"a"⟩ first
  have passed := (dialed_once R settings {} (doubled ++ [next]) next).1 idle
  exact ⟨queue, first, later, ⟨tried, answer, grown, once, resolved⟩, passed,
    between redoubled next later⟩

end World

end RadioCentral
