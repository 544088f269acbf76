import RadioCentral.Proofs.Preparation
import RadioCentral.Proofs.Run.Lives

/-!
What a run reports on whether a peer is connected. A change of the registry leaves a report to be made,
and the report is made before the registry changes again. So the reports of an address are those of its
lives, one life after the other.
-/
namespace RadioCentral

open Registry (Step)

variable {σ : Type}

def Report.Holds (registry : Registry) : Report → Prop
  | .connected a size => ∃ p, registry.get? a = some p ∧ p.phase = .ready ∧ p.unitSize = size
  | .disconnected a => registry.contains a = false
  | .dataReceived .. | .dataSent .. => True

def Registry.Step.said (a : Address) : Step → List Report
  | .run (.reportConnected size) _ => [.connected a size]
  | .run .reportDisconnected _ => [.disconnected a]
  | _ => []

namespace Change

/-- What is said of an address in a change was so before it and is so after it. -/
def Truthful (a : Address) (c : Change σ) : Prop :=
  ∃ said, c.after.statuses a = c.before.statuses a ++ said ∧
    ∀ r ∈ said, r.Holds c.before.central.registry ∧ r.Holds c.after.central.registry

variable {a : Address} {w v : World σ}

theorem truthful_of_silent (silent : v.statuses a = w.statuses a) : Truthful a ⟨w, v⟩ := by
  refine ⟨[], ?_, by simp⟩
  rw [List.append_nil]
  exact silent

theorem about_due {ending : Ending} {c : Change σ} : ∀ r ∈ c.due ending a, r.about a = true := by
  intro r hr
  rcases mem_due.1 hr with ⟨size, -, rfl⟩ | ⟨-, -, rfl⟩ <;>
    simp [Report.about, Report.isStatus, Report.address]

theorem holds_due {ending : Ending} {c : Change σ} :
    ∀ r ∈ c.due ending a, r.Holds c.after.central.registry := by
  intro r hr
  rcases mem_due.1 hr with ⟨size, gets, rfl⟩ | ⟨lost, -, rfl⟩
  · exact gets.2
  · exact lost.2

end Change

namespace Peer

variable {policy : LinkPolicy} {p q : Peer} {event : PeerEvent} {actions : List Action} {a : Address}
  {handle : Option Handle}

/-- The steps of a move report a peer that gets ready, and nothing else. -/
theorem Proceeds.said (moved : p.Proceeds policy event q actions) :
    (actions.map (Step.run · handle)).flatMap (Step.said a) =
      if q.phase = .ready ∧ p.phase ≠ .ready then [.connected a q.unitSize] else [] := by
  cases moved with
  | ready done =>
    cases done with
    | nothingWanted phase | lastEnabled phase => simp [Step.said, phase, found]
  | negotiated phase | unnegotiated phase => simp [Step.said, phase]
  | negotiate done => simp [Step.said]
  | request | linkUp | reject => simp [Step.said]
  | subscribe phase targets => simp [Step.said, subscribing, List.flatMap_map]
  | leave => simp [Step.said, leaving, leavingActions, List.flatMap_map, apply_ite]
  | note | enabled | settled | late => simp

theorem Ends.said {before : List Action} (ended : p.Ends event before) :
    (before.map (Step.run · handle)).flatMap (Step.said a) = [] := by
  cases ended <;> simp [Step.said, leavingActions, List.flatMap_map, apply_ite]

end Peer

namespace World

section

variable (R : Radio σ) (a : Address)

theorem reports_execute (step : Step) (w : World σ) :
    (w.execute R a step).2.central.reports = w.central.reports ++ step.said a := by
  cases step with
  | release handle => exact (List.append_nil _).symm
  | run action handle =>
    cases action <;> simp only [execute, perform, registry_askOn, registry_switch, Step.said,
      List.append_nil] <;> try rfl
    split <;> rfl

/-- A step only reports the status of the peer it is for. -/
theorem status_said {a : Address} {step : Step} :
    ∀ r ∈ step.said a, r.isStatus = true ∧ r.address = a := by
  intro r hr
  cases step with
  | release => cases hr
  | run action handle =>
    cases action with
    | reportConnected | reportDisconnected =>
      obtain rfl := List.mem_singleton.1 hr
      exact ⟨rfl, rfl⟩
    | _ => cases hr

theorem statuses_execute (b : Address) (step : Step) (w : World σ) :
    (w.execute R a step).2.statuses b = w.statuses b ++ (step.said a).filter (·.about b) := by
  unfold statuses
  rw [reports_execute, List.filter_append]

/-- The steps that an event leaves for a peer report what is to be reported of the change it makes. -/
theorem said_transition (event : PeerEvent) (w : World σ) :
    (w.transition R a event).1.flatMap (Step.said a) =
      Change.due .removed a ⟨w, (w.transition R a event).2⟩ := by
  have spec := w.central.registry.advance_spec (w.policy R) a event
  unfold transition
  simp only
  generalize (w.central.registry.advance (w.policy R) a event).1 = steps at spec
  generalize (w.central.registry.advance (w.policy R) a event).2 = after at spec
  cases spec with
  | ignored => exact (Change.due_of_same rfl).symm
  | @kept p q actions here moved =>
    have view := Registry.get?_putBack here moved a
    rw [if_pos rfl] at view
    simp [moved.said, Change.due, view, Registry.isReady, here, Peer.isReady]
  | @ended p before here ended =>
    have there : w.central.registry.contains a = true := by simp [Registry.contains, here]
    have released : (p.handle.toList.map Step.release).flatMap (Step.said a) = [] := by
      cases p.handle <;> rfl
    rw [List.flatMap_append, List.flatMap_append, ended.said, released]
    simp [Change.due, Registry.get?_remove_self, there, Step.said]

theorem filter_said_transition (b : Address) (event : PeerEvent) (w : World σ) :
    ((w.transition R a event).1.flatMap (Step.said a)).filter (·.about b) =
      Change.due .removed b ⟨w, (w.transition R a event).2⟩ := by
  by_cases same : b = a
  · subst same
    rw [said_transition]
    exact List.filter_eq_self.2 Change.about_due
  · rw [Change.due_of_same (Registry.get?_advance_ne same), List.filter_eq_nil_iff]
    intro r hr
    obtain ⟨step, -, hr⟩ := List.mem_flatMap.1 hr
    simp [Report.about, (status_said r hr).2, Ne.symm same]

/-- While a peer settles, its steps report what is still to be reported, and the changes that follow
are reported in their order. -/
theorem statuses_settle (b : Address) (steps : List Step) (events : List PeerEvent) (w : World σ) :
    (w.settle R a steps events).statuses b =
      w.statuses b ++ (steps.flatMap (Step.said a)).filter (·.about b) ++
        (w.settling R a steps events).flatMap (Change.due .removed b) := by
  fun_induction settle R a steps events w with
  | case1 events w step steps r ih =>
    have same : Change.due .removed b ⟨w, r.2⟩ = [] :=
      Change.due_of_same (by rw [show r.2 = (w.execute R a step).2 from rfl, registry_execute])
    rw [ih, settling, List.flatMap_cons, List.flatMap_cons, same, List.nil_append, List.filter_append,
      statuses_execute]
    simp only [List.append_assoc]
    rfl
  | case2 w event events r ih =>
    have told := filter_said_transition R a b event w
    rw [ih, settling, List.flatMap_cons, ← told, List.flatMap_nil, List.filter_nil, List.append_nil]
    simp only [List.append_assoc]
    rfl
  | case3 w => simp [settling]

/-- Between two changes of the registry nothing is said that the registry does not bear out. -/
theorem truthful_settling (b : Address) {steps : List Step} {events : List PeerEvent} {w : World σ}
    (holds : ∀ r ∈ steps.flatMap (Step.said a), r.Holds w.central.registry) :
    ∀ c ∈ w.settling R a steps events, c.Truthful b := by
  refine (settling_induction (Q := fun w v => Change.Truthful b ⟨w, v⟩)
    (I := fun steps _ v => ∀ r ∈ steps.flatMap (Step.said a), r.Holds v.central.registry)
    (fun step steps _ v now => ?_) (fun event _ v _ => ⟨?_, ?_⟩) holds).1
  · rw [List.flatMap_cons] at now
    obtain ⟨first, later⟩ := List.forall_mem_append.1 now
    have registry := registry_execute R a step v
    refine ⟨⟨_, statuses_execute R a b step v, fun r hr => ?_⟩, ?_⟩
    · have so := first r (List.mem_of_mem_filter hr)
      simp only [registry]
      exact ⟨so, so⟩
    · rw [registry]
      exact later
  · exact Change.truthful_of_silent rfl
  · rw [said_transition]
    exact Change.holds_due

def Mute (duties : List Duty) : Prop := ∀ d ∈ duties, d.steps.flatMap (Step.said d.address) = []

theorem statuses_runAll {duties : List Duty} (mute : Mute duties) (w : World σ) :
    (w.runAll R duties).statuses a =
      w.statuses a ++ (w.journey R duties).flatMap (Change.due .removed a) := by
  induction duties generalizing w with
  | nil => exact (List.append_nil _).symm
  | cons d duties ih =>
    obtain ⟨silent, later⟩ := List.forall_mem_cons.1 mute
    have settled := statuses_settle R d.address a d.steps d.events w
    rw [silent, List.filter_nil, List.append_nil] at settled
    show ((d.run R w).runAll R duties).statuses a = _
    rw [ih later, journey, List.flatMap_append, ← List.append_assoc, ← settled]
    rfl

theorem truthful_journey {duties : List Duty} (mute : Mute duties) (w : World σ) :
    ∀ c ∈ w.journey R duties, c.Truthful a := by
  refine (journey_induction (Q := fun w v => Change.Truthful a ⟨w, v⟩) (P := fun _ => True)
    (fun d hd v _ => ⟨truthful_settling R d.address a ?_, trivial⟩) trivial).1
  rw [mute d hd]
  simp

end

section

variable (R : Radio σ) (w : World (Recorded σ)) (x : Happening σ) (a : Address)

/-- As a happening begins, no status is reported, and none is due. -/
theorem statuses_opening : (w.opening R x).1.statuses a = w.statuses a := by
  have opened := opened_opening R w x
  generalize (w.opening R x).1 = v at opened ⊢
  generalize (w.opening R x).2 = duties at opened
  have of_reports : ∀ v : World (Recorded σ), v.central.reports = w.central.reports →
      v.statuses a = w.statuses a := fun v same => by rw [statuses, same]; rfl
  cases opened with
  | started | stopped | sentAway | reached | admitted => rfl
  | reset => exact of_reports _ (by rw [central_reset])
  | attached _ _ _ _ _ _ reports | failed _ _ _ _ reports => exact of_reports v reports
  | aside _ _ _ statuses => exact statuses a

theorem due_opening : Change.due x.ending a ⟨w, (w.opening R x).1⟩ = [] := by
  rcases opening_fresh R w x with ⟨⟨order, rfl⟩, gone⟩ | ⟨-, fresh⟩
  · have none : (w.opening R (.operation (.reset order))).1.central.registry.get? a = none := by
      rw [gone]
      rfl
    simp [Change.due, none, Happening.ending]
  · rcases fresh a with same | ⟨q, begun, phase, -⟩
    · exact Change.due_of_same same
    · simp [Change.due, begun, phase]

theorem mute_opening : Mute (w.opening R x).2 := by
  have opened := opened_opening R w x
  generalize (w.opening R x).1 = v at opened
  generalize (w.opening R x).2 = duties at opened ⊢
  cases opened with
  | stopped =>
    intro d hd
    obtain ⟨b, -, rfl⟩ := List.mem_map.1 hd
    rfl
  | sentAway | reached | admitted | failed => exact List.forall_mem_singleton.2 rfl
  | started | reset | attached | aside => simp [Mute]

/-- The status reports of a happening are those of its changes, in their order. -/
theorem statuses_happen :
    (w.happen R x).statuses a = w.statuses a ++ (w.changes R x).flatMap (Change.due x.ending a) := by
  rw [happen_eq, changes, List.flatMap_cons, due_opening, List.nil_append,
    statuses_runAll R.recorded a (mute_opening R w x), statuses_opening]
  by_cases reset : x.Resets
  · obtain ⟨order, rfl⟩ := reset
    have idle : (w.opening R (.operation (.reset order))).2 = [] := rfl
    rw [idle]
    rfl
  · rw [Happening.ending_eq reset]

theorem truthful_changes : ∀ c ∈ w.changes R x, c.Truthful a :=
  List.forall_mem_cons.2 ⟨Change.truthful_of_silent (statuses_opening R w x a),
    truthful_journey R.recorded a (mute_opening R w x) _⟩

end

section

variable (R : Radio σ) (settings : Settings) (s : σ) (history : List (Happening σ)) (a : Address)

theorem statuses_outcome :
    (outcome R settings s history).statuses a =
      (lives R settings s a history).reverse.flatMap (Life.statuses a) := by
  induction history using List.reverseRecOn with
  | nil => rfl
  | append_singleton history x ih => rw [outcome_concat, statuses_happen, statuses_lives_concat, ih]

end

/-- Status reports match the lives of peers. Wherever a run leads, the status reports of an address are
those of its lives, one after the other: connected at most once, and then disconnected, unless the life
still goes on or all peers were forgotten. Whatever happens next, its status reports are those of its
changes; each is made while what it says is so, and a peer gets ready only on a connection that was set
up from end to end. The latest report of a ready peer is that it is connected; without a reset, it never
is for an address without a peer. -/
theorem statuses_match_lives (R : Radio σ) (settings : Settings) (s : σ) (history : List (Happening σ))
    (a : Address) :
    let w := outcome R settings s history
    let lives := lives R settings s a history
    (w.statuses a = lives.reverse.flatMap (Life.statuses a) ∧
      (∀ life ∈ lives, life.ready.length ≤ 1) ∧ (∀ life ∈ lives.tail, life.ended.isSome) ∧
      (w.central.registry.contains a = true ↔ ∃ life ∈ lives.head?, life.ended = none)) ∧
    (∀ x, (w.happen R x).statuses a = w.statuses a ++ (w.changes R x).flatMap (Change.due x.ending a) ∧
      ∀ c ∈ w.changes R x, c.Truthful a ∧
        ∀ size, .connected a size ∈ c.due x.ending a → c.after.Prepared settings.service a) ∧
    (w.central.registry.isReady a = true →
      ∃ size, (w.statuses a).getLast? = some (.connected a size)) ∧
    ((∀ x ∈ history, ¬ x.Resets) → w.central.registry.contains a = false →
      ∀ size, (w.statuses a).getLast? ≠ some (.connected a size)) := by
  intro w lives
  have chronicle : Chronicle (w.central.registry.get? a) lives := chronicle_outcome R settings s a history
  have reports : w.statuses a = lives.reverse.flatMap (Life.statuses a) :=
    statuses_outcome R settings s history a
  refine ⟨⟨reports, chronicle.once, chronicle.past, chronicle.going_iff⟩, fun x => ?_, fun ready => ?_,
    fun kept gone size => ?_⟩
  · have standing : w.Standing settings.service := standing_outcome R settings s history
    have service : w.central.settings.service = settings.service :=
      congrArg (·.service) (settings_outcome R settings s history)
    refine ⟨statuses_happen R w x a, fun c hc => ⟨truthful_changes R w x a c hc, fun size due => ?_⟩⟩
    rcases Change.mem_due.1 due with ⟨size', gets, same⟩ | ⟨-, -, same⟩
    · obtain ⟨-, rfl⟩ := Report.connected.inj same
      exact (honest_happen standing service R x).1 c hc a size gets
    · cases same
  · obtain ⟨p, here, phase⟩ := Registry.isReady_iff.1 ready
    rw [reports]
    rw [here] at chronicle
    exact chronicle.latest_of_ready phase
  · have none : w.central.registry.get? a = none := by simpa [Registry.contains] using gone
    rw [reports]
    rw [none] at chronicle
    exact chronicle.latest_of_gone (unforgotten_outcome R settings s a history kept) size

/-- In the encounter the first peer got ready with a unit size of 247; the second never did. -/
theorem statuses_of_encounter :
    let w := outcome SimulatedRadio.radio Encounter.settings {} Encounter.history
    let later := lives SimulatedRadio.radio Encounter.settings {} ⟨"b"⟩ Encounter.history
    (w.central.registry.isReady ⟨"a"⟩ = true ∧
      ∃ size, (w.statuses ⟨"a"⟩).getLast? = some (.connected ⟨"a"⟩ size)) ∧
    w.statuses ⟨"a"⟩ = [.connected ⟨"a"⟩ (some 247)] ∧
    (∀ x ∈ Encounter.history, ¬ x.Resets) ∧ w.central.registry.contains ⟨"b"⟩ = false ∧
    later = [{ ended := some .removed }] ∧ w.statuses ⟨"b"⟩ = [.disconnected ⟨"b"⟩] ∧
      ∀ size, (w.statuses ⟨"b"⟩).getLast? ≠ some (.connected ⟨"b"⟩ size) := by
  have ready : (outcome SimulatedRadio.radio Encounter.settings {}
      Encounter.history).central.registry.isReady ⟨"a"⟩ = true := by cbv
  have kept : ∀ x ∈ Encounter.history, ¬ x.Resets := by simp [Encounter.history, Happening.Resets]
  have gone : (outcome SimulatedRadio.radio Encounter.settings {}
      Encounter.history).central.registry.contains ⟨"b"⟩ = false := by cbv
  have only : lives SimulatedRadio.radio Encounter.settings {} ⟨"b"⟩ Encounter.history =
      [{ ended := some .removed }] := by cbv
  have both : (outcome SimulatedRadio.radio Encounter.settings {} Encounter.history).statuses ⟨"a"⟩ =
      [.connected ⟨"a"⟩ (some 247)] := by cbv
  obtain ⟨-, -, connected, -⟩ := statuses_match_lives SimulatedRadio.radio Encounter.settings {}
    Encounter.history ⟨"a"⟩
  obtain ⟨⟨reports, -⟩, -, -, disconnected⟩ := statuses_match_lives SimulatedRadio.radio Encounter.settings {}
    Encounter.history ⟨"b"⟩
  rw [only] at reports
  exact ⟨⟨ready, connected ready⟩, both, kept, gone, only, reports, disconnected kept gone⟩

end World

end RadioCentral
