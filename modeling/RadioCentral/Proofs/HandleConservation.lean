import Mathlib
import RadioCentral.Proofs.Run.Numbering
import RadioCentral.Proofs.Run.Turn

/-!
Every handle the radio gives out is held by a peer until it is given back.
-/
namespace RadioCentral

open Registry (Step)

variable {σ : Type}

theorem Log.issued_eq_nil {log : Log} (h : ∀ e ∈ log, e.issued? = none) : log.issued = [] :=
  List.filterMap_eq_nil_iff.2 h

theorem Log.released_eq_nil {log : Log}
    (h : ∀ e ∈ log, ∀ request, e.request? = some request → request.released? = none) :
    log.released = [] := by
  refine List.filterMap_eq_nil_iff.2 fun request hr => ?_
  obtain ⟨e, he, hreq⟩ := List.mem_filterMap.1 hr
  exact h e he request hreq

theorem Exchange.AboutScan.issued? {e : Exchange} (h : e.AboutScan) : e.issued? = none := by
  obtain ⟨request, answer, rfl, -⟩ := h
  rfl

theorem Exchange.AboutScan.released? {e : Exchange} (h : e.AboutScan) {request : Request}
    (hr : e.request? = some request) : request.released? = none := by
  obtain ⟨request', answer, rfl, free⟩ := h
  obtain rfl : request' = request := by simpa [Exchange.request?] using hr
  cases request' <;> first | rfl | cases free

namespace Carried

variable {step : Step} {log : Log} {event : Option PeerEvent}

/-- Steps never connect. -/
theorem issued_eq (h : Carried step log event) : log.issued = [] := by
  cases h with
  | scan _ about => exact Log.issued_eq_nil fun e he => (about e he).issued?
  | subscribed switched | unsubscribed switched => cases switched <;> rfl
  | released | queued | unqueued | asked | silent | unlinked => rfl

/-- A step gives back what it is there to give back. -/
theorem released_eq (h : Carried step log event) : log.released = Registry.released [step] := by
  cases h with
  | scan _ about => exact Log.released_eq_nil fun e he request hr => (about e he).released? hr
  | asked asks => cases asks <;> rfl
  | subscribed switched | unsubscribed switched => cases switched <;> rfl
  | released | queued | unqueued | silent | unlinked => rfl

end Carried

theorem Dials.issued_eq {a : Address} {log : Log} {answer : Option Handle} (h : Dials a log answer) :
    log.issued = answer.toList := by
  induction h with
  | exhausted | accepted => rfl
  | refused _ _ ih => exact ih

theorem Dials.requests_eq {a : Address} {log : Log} {answer : Option Handle}
    (h : Dials a log answer) : log.requests = [] := by
  induction h with
  | exhausted | accepted => rfl
  | refused _ _ ih => exact ih

/-- Connecting asks for nothing on any connection. -/
theorem Dials.requestsOn_eq {a : Address} {log : Log} {answer : Option Handle} (dials : Dials a log answer)
    (h : Handle) : log.requestsOn h = [] := by
  rw [Log.requestsOn, dials.requests_eq, List.filter_nil]

/-- Addresses are unique, and the handles given out are the ones held, owed and given back. -/
structure Conserved (r : Registry) (log : Log) (owed : List Handle) : Prop where
  unique : r.known.Nodup
  balance : log.issued.Perm (r.held ++ (owed ++ log.released))

theorem conserved_empty : Conserved {} [] [] := ⟨List.nodup_nil, List.Perm.refl _⟩

namespace Conserved

variable {r : Registry} {log more : Log} {owed back : List Handle} {new : Handle}

/-- No handle is held more often than it was given out. -/
theorem count_held_le (conserved : Conserved r log owed) (h : Handle) : r.held.count h ≤ log.issued.count h := by
  have balance := conserved.balance.count_eq h
  rw [List.count_append] at balance
  omega

theorem grow (h : Conserved r log (back ++ owed)) (issued : more.issued = [])
    (released : more.released = back) : Conserved r (log ++ more) owed := by
  refine ⟨h.unique, ?_⟩
  rw [Log.issued_append, Log.released_append, issued, released, List.append_nil]
  refine h.balance.trans (List.Perm.append_left _ ?_)
  rw [List.append_assoc, ← List.append_assoc owed]
  exact List.perm_append_comm

theorem quiet (h : Conserved r log []) (issued : more.issued = []) (released : more.released = []) :
    Conserved r (log ++ more) [] :=
  (show Conserved r log ([] ++ []) from h).grow issued released

theorem advance (h : Conserved r log []) (policy : LinkPolicy) (a : Address) (event : PeerEvent) :
    Conserved (r.advance policy a event).2 log
      (Registry.released (r.advance policy a event).1) := by
  refine ⟨(Registry.known_advance_sublist policy a event r).nodup h.unique, ?_⟩
  have kept := Registry.held_advance policy a event h.unique
  rw [← List.append_assoc]
  exact h.balance.trans (kept.append_right _)

theorem enroll (h : Conserved r log []) {a : Address} (unknown : r.contains a = false) :
    Conserved (r.enroll a) log [] :=
  ⟨Registry.unique_enroll h.unique unknown, by rw [Registry.held_enroll]; exact h.balance⟩

/-- A handle that is owed goes to a peer. -/
theorem equip (h : Conserved r log (new :: owed)) {a : Address} {p : Peer} (here : r.get? a = some p)
    (bare : p.handle = none) (phase : p.phase = .connecting) :
    Conserved (r.attach a new).2 log owed := by
  obtain ⟨-, known, given⟩ := Registry.held_attach (h := new) h.unique here bare phase
  refine ⟨by rw [known]; exact h.unique, h.balance.trans ?_⟩
  rw [List.cons_append]
  exact List.perm_middle.trans (given.symm.append_right _)

theorem attach (h : Conserved r log []) {a : Address} {p : Peer}
    (here : r.get? a = some p) (bare : p.handle = none) (phase : p.phase = .connecting)
    (issued : more.issued = [new]) (released : more.released = []) :
    Conserved (r.attach a new).2 (log ++ more) [] := by
  have owes : Conserved r (log ++ more) [new] := by
    refine ⟨h.unique, ?_⟩
    rw [Log.issued_append, Log.released_append, issued, released, List.append_nil]
    exact List.perm_append_comm.trans ((h.balance.cons new).trans List.perm_middle.symm)
  exact owes.equip here bare phase

end Conserved

namespace World

/-- Settling gives back what its steps owe. -/
theorem conserved_settle {R : Radio σ} {a : Address} {steps : List Step} {w : World (Recorded σ)}
    (h : Conserved w.central.registry w.radio.log (Registry.released steps)) :
    Conserved (w.settle R.recorded a steps []).central.registry
      (w.settle R.recorded a steps []).radio.log [] := by
  refine settle_recorded (I := fun steps _ w =>
    Conserved w.central.registry w.radio.log (Registry.released steps)) ?_ ?_ h
  · intro step steps events w log event now grown carried _
    rw [Registry.released_cons] at now
    rw [grown, registry_execute]
    exact now.grow carried.issued_eq carried.released_eq
  · intro event events w _ now
    exact now.advance _ a event

theorem conserved_drive {R : Radio σ} {a : Address} {event : PeerEvent} {w : World (Recorded σ)}
    (h : Conserved w.central.registry w.radio.log []) :
    Conserved (w.drive R.recorded a event).central.registry
      (w.drive R.recorded a event).radio.log [] := by
  rw [drive_eq]
  exact conserved_settle (h.advance _ a event)

/-- A handle that came from the radio is held or given back, whether or not its peer is still there. -/
theorem conserved_handOver {R : Radio σ} {a : Address} {new : Handle} {w : World (Recorded σ)}
    (h : Conserved w.central.registry w.radio.log [new]) :
    Conserved (w.handOver R.recorded a new).central.registry (w.handOver R.recorded a new).radio.log [] := by
  rcases handOver_spec R w a new with ⟨p, here, phase, bare, central, -, radio⟩ | ⟨-, central, _, _, grown⟩
  · rw [central, radio]
    exact h.equip here bare phase
  · rw [central, grown]
    exact h.grow rfl rfl

theorem conserved_turn {R : Radio σ} {x : Happening σ} {w w' : World (Recorded σ)}
    (turn : Turn R x w w') (h : Conserved w.central.registry w.radio.log []) :
    Conserved w'.central.registry w'.radio.log [] := by
  cases turn with
  | quiet registry _ grown idle =>
    rw [registry, grown]
    refine h.quiet (Log.issued_eq_nil fun e he => ?_) (Log.released_eq_nil fun e he q hq => ?_)
    · rcases idle e he with scan | ⟨event, rfl, -⟩
      · exact scan.issued?
      · rfl
    · rcases idle e he with scan | ⟨event, rfl, -⟩
      · exact scan.released? hq
      · cases hq
  | reached => exact conserved_drive (h.quiet rfl rfl)
  | disconnected => exact conserved_drive h
  | admitted unknown => exact conserved_settle ((h.quiet rfl rfl).enroll unknown)
  | passed _ registry log | dropped registry log =>
    rw [registry, log]
    exact h
  | attached here phase bare registry grown dials =>
    rw [registry, grown]
    exact h.attach here bare phase dials.issued_eq (by simp [Log.released, dials.requests_eq])
  | failed _ registry grown dials =>
    refine conserved_drive ?_
    rw [registry, grown]
    exact h.quiet dials.issued_eq (by simp [Log.released, dials.requests_eq])
  | written _ _ _ registry _ grown =>
    rw [registry, grown]
    exact h.quiet rfl rfl
  | reset order =>
    obtain ⟨log, grown, issued, requests⟩ := log_reset R w order
    have released : log.released = (w.central.registry.clear order).1 := by
      rw [Log.released, requests, List.filterMap_map]
      exact List.filterMap_some
    rw [registry_reset, grown]
    refine ⟨List.nodup_nil, ?_⟩
    rw [Log.issued_append, Log.released_append, issued, released, List.append_nil]
    have back := Registry.clear_perm order w.central.registry
    exact h.balance.trans (List.perm_append_comm.trans (back.symm.append_left _))

/-- The handles given out in a run are the ones held and the ones given back. -/
theorem conserved_outcome (R : Radio σ) (settings : Settings) (s : σ)
    (history : List (Happening σ)) :
    Conserved (outcome R settings s history).central.registry
      (outcome R settings s history).radio.log [] :=
  outcome_induction R settings s (P := fun w => Conserved w.central.registry w.radio.log [])
    conserved_empty (fun _ _ _ turn h => conserved_turn turn h) history

/-- Handle conservation. If the radio never gives out a handle twice, then wherever a run leads the
handles of accepted connects are those held by peers, at most one for an address, and those given
back, each of them once. -/
theorem handles_held_or_released (R : Radio σ) (settings : Settings) (s : σ)
    (history : List (Happening σ))
    (distinct : (outcome R settings s history).radio.log.issued.Nodup) :
    let w := outcome R settings s history
    w.radio.log.issued.Perm (w.central.registry.held ++ w.radio.log.released) ∧
      (w.central.registry.held ++ w.radio.log.released).Nodup ∧
      w.central.registry.known.Nodup := by
  have conserved := conserved_outcome R settings s history
  exact ⟨conserved.balance, conserved.balance.nodup_iff.1 distinct, conserved.unique⟩

theorem handles_of_encounter :
    let w := outcome SimulatedRadio.radio Encounter.settings {} Encounter.history
    w.radio.log.issued = [⟨1⟩, ⟨2⟩] ∧
      w.radio.log.issued.Perm (w.central.registry.held ++ w.radio.log.released) ∧
      (w.central.registry.held ++ w.radio.log.released).Nodup ∧ w.central.registry.known.Nodup := by
  have issued : (outcome SimulatedRadio.radio Encounter.settings {} Encounter.history).radio.log.issued =
      [⟨1⟩, ⟨2⟩] := by cbv
  have distinct := issued_nodup SimulatedRadio.numbers Encounter.settings {} Encounter.history
    (by simp [Encounter.history])
  exact ⟨issued, handles_held_or_released SimulatedRadio.radio Encounter.settings {}
    Encounter.history distinct⟩

end World

end RadioCentral
