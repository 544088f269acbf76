import RadioCentral.Proofs.ReleasedHandles
import RadioCentral.Proofs.Teardown.Progress

/-!
Teardowns from their beginning. When one begins, every target is switched off at once and waited for;
nothing but the ends of these writes, or a write that cannot be issued, brings the release about, and it
comes as soon as they have come.
-/
namespace RadioCentral

open Registry (Step owed)

variable {σ : Type}

namespace World

section

variable {R : Radio σ} {a b : Address} {h : Handle} {targets : List Characteristic} {closing : List Request}
  {base more late : Log} {steps : List Step} {events : List PeerEvent} {event : PeerEvent} {p : Peer}
  {w v : World (Recorded σ)}

structure Staying (b : Address) (h : Handle) (steps : List Step) (events : List PeerEvent)
    (w : World (Recorded σ)) : Prop where
  orderly : w.central.registry.Orderly
  once : w.central.registry.held.count h ≤ 1
  followUps : ∀ e ∈ events, e.isFollowUp = true
  calm : ∀ p, w.central.registry.get? b = some p → p.phase ≠ .disconnecting →
    (∀ e ∈ events, e.isDisable = false) ∧ ∀ c handle, .run (.unsubscribe c) handle ∉ steps

theorem Staying.single (staying : w.Staying b h steps events) : w.Single h :=
  ⟨staying.orderly.unique, staying.once⟩

theorem Staying.execute {step : Step} (staying : w.Staying b h (step :: steps) events) (R : Radio σ) :
    (w.execute R.recorded b step).2.Staying b h steps (events ++ (w.execute R.recorded b step).1.toList) := by
  have registry := registry_execute R.recorded b step w
  have disables : ∀ event, (w.execute R.recorded b step).1 = some event → event.isDisable = true →
      ∃ c handle, step = .run (.unsubscribe c) handle := fun _ => isDisable_execute
  obtain ⟨more, written, carried⟩ := carried_execute R b step w
  generalize (w.execute R.recorded b step).2 = v at registry ⊢
  generalize (w.execute R.recorded b step).1 = due at carried disables ⊢
  constructor
  case orderly => exact registry ▸ staying.orderly
  case once => exact registry ▸ staying.once
  case followUps =>
    intro e mem
    rcases List.mem_append.1 mem with old | new
    · exact staying.followUps e old
    · exact carried.isFollowUp e (by simpa using new)
  case calm =>
    intro p here live
    obtain ⟨calm, none⟩ := staying.calm p (registry ▸ here) live
    refine ⟨fun e mem => ?_, fun c handle mem => none c handle (List.mem_cons_of_mem _ mem)⟩
    rcases List.mem_append.1 mem with old | new
    · exact calm e old
    · refine Bool.eq_false_iff.2 fun disable => ?_
      obtain ⟨c, handle, rfl⟩ := disables e (by simpa using new) disable
      exact none c handle List.mem_cons_self

theorem Staying.advance (orderly : w.central.registry.Orderly) (once : w.central.registry.held.count h ≤ 1)
    (followUps : ∀ e ∈ events, e.isFollowUp = true)
    (linked : event = .linkUp → ∀ p, w.central.registry.get? b = some p → p.handle.isSome)
    (calm : ∀ p, w.central.registry.get? b = some p → p.phase ≠ .disconnecting →
      ∀ e ∈ events, e.isDisable = false) (R : Radio (Recorded σ)) :
    (w.transition R b event).2.Staying b h (w.transition R b event).1 events where
  orderly := orderly.advance _ b event linked
  once := Registry.count_held_advance orderly.unique once
  followUps := followUps
  calm q there live := by
    obtain ⟨p, here, -⟩ := Registry.handle_advance there
    have before : p.phase ≠ .disconnecting := fun phase => live <|
      (Registry.parting_advance (w.policy R) event fun s here' =>
        Option.some.inj (here.symm.trans here') ▸ phase).2 q there
    refine ⟨calm p here before, fun c handle mem => ?_⟩
    have spec := w.central.registry.advance_spec (w.policy R) b event
    change .run (.unsubscribe c) handle ∈ (w.central.registry.advance (w.policy R) b event).1 at mem
    change (w.central.registry.advance (w.policy R) b event).2.get? b = some q at there
    generalize (w.central.registry.advance (w.policy R) b event).1 = steps at spec mem
    generalize (w.central.registry.advance (w.policy R) b event).2 = after at spec there
    cases spec with
    | ignored => cases mem
    | kept here' moved =>
      rw [Registry.get?_putBack here' moved, if_pos rfl] at there
      obtain rfl := Option.some.inj there
      obtain ⟨action, asked, same⟩ := List.mem_map.1 mem
      cases same
      exact live (moved.unsubscribes asked)
    | ended => simp [Registry.get?_remove_self] at there

/-- The teardown of a connection with targets begins by switching all of them off. -/
theorem departs_start (R : Radio (Recorded σ)) (orderly : w.central.registry.Orderly) (targeted : targets ≠ [])
    (torn : Change.TearsDown a h targets ⟨w, (w.transition R b event).2⟩)
    (calm : ∀ p, w.central.registry.get? b = some p → p.phase ≠ .disconnecting →
      ∀ e ∈ events, e.isDisable = false) :
    b = a ∧ ∃ closing, (closing = [] ∨ closing = [.disconnect h]) ∧
      (w.transition R b event).2.Departs a h targets closing w.radio.log (w.transition R b event).1 events := by
  obtain ⟨⟨p, here, live, holds, rfl⟩, away⟩ := torn
  obtain rfl : b = a := by
    by_contra other
    exact live (away p ((Registry.get?_advance_ne (Ne.symm other)).trans here))
  refine ⟨rfl, ?_⟩
  have sound := (orderly.live b p here).sound
  have spec := w.central.registry.advance_spec (w.policy R) b event
  change ∀ q, (w.central.registry.advance (w.policy R) b event).2.get? b = some q → _ at away
  show ∃ closing, _ ∧ World.Departs b h p.notifyTargets closing w.radio.log
    (w.central.registry.advance (w.policy R) b event).1 events
    (w.withRegistry (w.central.registry.advance (w.policy R) b event).2)
  generalize (w.central.registry.advance (w.policy R) b event).1 = steps at spec ⊢
  generalize (w.central.registry.advance (w.policy R) b event).2 = after at spec away ⊢
  cases spec with
  | ignored => exact absurd (away p here) live
  | @kept p' q actions here' moved =>
    obtain rfl : p = p' := Option.some.inj (here.symm.trans here')
    have view := Registry.get?_putBack here moved b
    rw [if_pos rfl] at view
    obtain ⟨disconnect, rfl, rfl, pending⟩ := moved.leaves (away q view) live sound targeted
    refine ⟨if disconnect then [.disconnect h] else [], by cases disconnect <;> simp, ?_⟩
    refine .leaving view rfl holds pending (List.append_nil _).symm (.start ?_ ?_ ?_ (calm p here live) ?_)
    · rw [holds, Registry.owed_run_self, Peer.requests_leavingActions holds]
    · intro c handle mem
      obtain ⟨action, asked, same⟩ := List.mem_map.1 mem
      cases same
      exact ⟨holds, by simpa [Peer.leavingActions] using asked⟩
    · intro c mem
      exact List.mem_map.2 ⟨.unsubscribe c, by simp [Peer.leavingActions, mem], by rw [holds]⟩
    · intro u
      simp [Peer.leaving, UuidSet.isEmpty_iff.1 (sound.disabling live) u]
  | @ended p' before here' ended =>
    obtain rfl : p = p' := Option.some.inj (here.symm.trans here')
    exact absurd (ended.untargeted live sound) targeted

/-- What is said of the rest of an operation, seen from a change in it. -/
def Departing (a : Address) (h : Handle) (targets : List Characteristic) (final : World (Recorded σ))
    (w v : World (Recorded σ)) : Prop :=
  Change.TearsDown a h targets ⟨w, v⟩ → ∃ closing, (closing = [] ∨ closing = [.disconnect h]) ∧
    final.Departs a h targets closing v.radio.log [] []

theorem departing_of_registry {final : World (Recorded σ)}
    (same : v.central.registry.get? a = w.central.registry.get? a) : Departing a h targets final w v := by
  rintro ⟨⟨p, here, live, -⟩, away⟩
  exact absurd (away p (same.trans here)) live

theorem departing_settling (staying : w.Staying b h steps events) (targeted : targets ≠ []) (R : Radio σ) :
    ∀ c ∈ w.settling R.recorded b steps events,
      Departing a h targets (w.settle R.recorded b steps events) c.before c.after := by
  refine (settling_induction (I := fun steps events (v : World (Recorded σ)) => v.Staying b h steps events ∧
    v.settle R.recorded b steps events = w.settle R.recorded b _ _) ?_ ?_ ⟨staying, rfl⟩).1
  · rintro step steps events v ⟨now, ends⟩
    rw [settle] at ends
    exact ⟨departing_of_registry (by rw [registry_execute]), now.execute R, ends⟩
  · rintro event events v ⟨now, ends⟩
    rw [settle] at ends
    have calm : ∀ p, v.central.registry.get? b = some p → p.phase ≠ .disconnecting →
        ∀ e ∈ events, e.isDisable = false := fun p here live e mem =>
      (now.calm p here live).1 e (List.mem_cons_of_mem _ mem)
    refine ⟨fun torn => ?_, .advance now.orderly now.once
      (fun e mem => now.followUps e (List.mem_cons_of_mem _ mem)) (fun up => ?_) calm R.recorded, ends⟩
    · obtain ⟨rfl, closing, last, departs⟩ := departs_start R.recorded now.orderly targeted torn calm
      refine ⟨closing, last, ?_⟩
      rw [← ends]
      exact departs_settle departs (now.single.transition R.recorded) R
    · have followUp := now.followUps event List.mem_cons_self
      rw [up] at followUp
      cases followUp

theorem departing_drive (orderly : w.central.registry.Orderly) (once : w.central.registry.held.count h ≤ 1)
    (linked : event = .linkUp → ∀ p, w.central.registry.get? b = some p → p.handle.isSome)
    (targeted : targets ≠ []) (R : Radio σ) :
    ∀ c ∈ w.settling R.recorded b [] [event],
      Departing a h targets (w.drive R.recorded b event) c.before c.after := by
  have calm : ∀ p, w.central.registry.get? b = some p → p.phase ≠ .disconnecting →
      ∀ e ∈ ([] : List PeerEvent), e.isDisable = false := by simp
  rw [settling_drive, drive_eq]
  refine List.forall_mem_cons.2 ⟨fun torn => ?_, ?_⟩
  · obtain ⟨rfl, closing, last, departs⟩ := departs_start R.recorded orderly targeted torn calm
    exact ⟨closing, last, departs_settle departs (Single.transition ⟨orderly.unique, once⟩ R.recorded) R⟩
  · exact departing_settling (.advance orderly once (by simp) linked (by simp) R.recorded) targeted R

theorem single_drive (single : w.Single h) (R : Radio σ) (b : Address) (event : PeerEvent) :
    (w.drive R.recorded b event).Single h :=
  settle_induction (I := fun _ _ (v : World (Recorded σ)) => v.Single h)
    (fun step _ _ v now => now.congr (registry_execute R.recorded b step v))
    (fun _ _ _ now => now.transition R.recorded) single

/-- Sending others away does not disturb a teardown. -/
theorem departs_sendAway {duties : List Duty} (departs : w.Departs a h targets closing base [] [])
    (single : w.Single h) (R : Radio σ) (tells : ∀ d ∈ duties, d = .tell d.address .disconnectRequested) :
    (w.runAll R.recorded duties).Departs a h targets closing base [] [] := by
  induction duties generalizing w with
  | nil => exact departs
  | cons d duties ih =>
    have driven : d.run R.recorded w = w.drive R.recorded d.address .disconnectRequested := by
      rw [tells d List.mem_cons_self]
      rfl
    show World.Departs a h targets closing base [] [] (runAll R.recorded (d.run R.recorded w) duties)
    rw [driven]
    exact ih (departs.drive single R rfl d.address) (single_drive single R _ _)
      fun e mem => tells e (List.mem_cons_of_mem _ mem)

theorem departing_sendAway {duties : List Duty} (orderly : w.central.registry.Orderly)
    (once : w.central.registry.held.count h ≤ 1) (targeted : targets ≠ []) (R : Radio σ)
    (tells : ∀ d ∈ duties, d = .tell d.address .disconnectRequested) :
    ∀ c ∈ w.journey R.recorded duties, Departing a h targets (w.runAll R.recorded duties) c.before c.after := by
  induction duties generalizing w with
  | nil => simp [journey]
  | cons d duties ih =>
    have later : ∀ e ∈ duties, e = .tell e.address .disconnectRequested :=
      fun e mem => tells e (List.mem_cons_of_mem _ mem)
    have single := single_drive ⟨orderly.unique, once⟩ R d.address .disconnectRequested
    have driven : d.run R.recorded w = w.drive R.recorded d.address .disconnectRequested := by
      rw [tells d List.mem_cons_self]
      rfl
    have first : ∀ c ∈ w.settling R.recorded d.address [] [.disconnectRequested],
        Departing a h targets (w.drive R.recorded d.address .disconnectRequested) c.before c.after :=
      departing_drive orderly once (fun up => by cases up) targeted R
    have steps : d.steps = [] ∧ d.events = [.disconnectRequested] := by
      rw [tells d List.mem_cons_self]
      exact ⟨rfl, rfl⟩
    show ∀ c ∈ w.settling R.recorded d.address d.steps d.events ++ journey R.recorded (d.run R.recorded w) duties,
      Departing a h targets (runAll R.recorded (d.run R.recorded w) duties) c.before c.after
    rw [driven, steps.1, steps.2]
    refine List.forall_mem_append.2 ⟨fun c made torn => ?_, ?_⟩
    · obtain ⟨closing, last, departs⟩ := first c made torn
      exact ⟨closing, last, departs_sendAway departs single R later⟩
    · exact ih (orderly_drive orderly fun up => by cases up) single.once later

/-- If a teardown begins in an operation, the operation leaves it on its way, or done. -/
theorem departing_happen {x : Happening σ} (kept : ¬ x.Resets) (orderly : w.central.registry.Orderly)
    (once : w.central.registry.held.count h ≤ 1) (targeted : targets ≠ []) (R : Radio σ) :
    ∀ c ∈ w.changes R x, Departing a h targets (w.happen R x) c.before c.after := by
  have opened := opened_opening R w x
  have first : Departing a h targets (w.happen R x) w (w.opening R x).1 := by
    obtain ⟨-, fresh⟩ := (opening_fresh R w x).resolve_left fun reset => kept reset.1
    rintro ⟨⟨p, here, live, -⟩, away⟩
    rcases fresh a with same | ⟨q, there, phase, -⟩
    · exact absurd (away p (same.trans here)) live
    · have leaving := away q there
      rw [phase] at leaving
      cases leaving
  rw [happen_eq] at first ⊢
  rw [changes]
  refine List.forall_mem_cons.2 ⟨first, ?_⟩
  clear first
  generalize (w.opening R x).1 = v at opened ⊢
  generalize (w.opening R x).2 = duties at opened ⊢
  cases opened with
  | started | reset | attached | aside => simp [journey]
  | stopped =>
    exact departing_sendAway (w := w.scan (Scanner.stop R.recorded)) orderly once targeted R Duty.sent_away
  | sentAway b =>
    rw [journey_single]
    exact departing_drive orderly once (fun up => by cases up) targeted R
  | @reached heard b told reaches =>
    rw [journey_single]
    exact departing_drive (w := w.hear (some heard)) orderly once (reaches.linked orderly) targeted R
  | @failed _ v b log _ _ registry =>
    rw [journey_single]
    exact departing_drive (w := v) (registry ▸ orderly) (registry ▸ once) (fun up => by cases up) targeted R
  | @admitted b data admits =>
    have unknown := unknown_of_admits admits
    have entered : (w.central.registry.enroll b).held.count h ≤ 1 := by
      rw [Registry.held_enroll]
      exact once
    rw [journey_single]
    refine departing_settling (w := (w.hear (some (.advertisement b data))).enter b) ?_ targeted R
    exact ⟨orderly.enroll unknown, entered, by simp [Duty.admission], by simp [Duty.admission]⟩

/-- A teardown that is on its way stays so, or is done, however the run goes on. -/
theorem departs_outcome {settings : Settings} {s : σ} {history after : List (Happening σ)}
    (departs : (outcome R settings s history).Departs a h targets closing base [] [])
    (issued : h ∈ (outcome R settings s history).radio.log.issued)
    (kept : ∀ y ∈ after, ¬ y.Resets)
    (once : (outcome R settings s (history ++ after)).radio.log.issued.count h ≤ 1) :
    (outcome R settings s (history ++ after)).Departs a h targets closing base [] [] := by
  induction after using List.reverseRecOn with
  | nil =>
    rw [List.append_nil]
    exact departs
  | append_singleton after y ih =>
    have grown (more : List (Happening σ)) :=
      (prefix_log R settings s history more).sublist.filterMap Exchange.issued?
    have shorter : (outcome R settings s (history ++ after)).radio.log.issued.count h ≤ 1 := by
      rw [← List.append_assoc] at once
      exact Nat.le_trans (count_issued_le R settings s (history ++ after) [y] h) once
    have now := ih (fun z mem => kept z (List.mem_append_left _ mem)) shorter
    rw [← List.append_assoc, outcome_concat] at once ⊢
    have all := happen_keeps R (outcome R settings s (history ++ after)) (x := y)
      (P := fun v => Conserved v.central.registry v.radio.log [] ∧ v.central.registry.Orderly ∧
        h ∈ v.radio.log.issued ∧ (v.radio.log.issued.count h ≤ 1 → v.central.registry.Leads h ∧
          v.Departs a h targets closing base [] []))
      (fun v v' _ _ _ turn ⟨conserved, orderly, known, both⟩ => by
        refine ⟨conserved_turn turn conserved, orderly_turn turn orderly, (issued_turn R turn).subset known,
          fun single => ?_⟩
        obtain ⟨leads, departs⟩ := both (Nat.le_trans ((issued_turn R turn).count_le h) single)
        exact ⟨leads_turn turn conserved single leads,
          departs_turn turn (kept y (by simp)) conserved orderly leads known single departs⟩)
      ⟨conserved_outcome R settings s _, orderly_outcome R settings s _, (grown after).subset issued,
        fun single => ⟨leads_outcome R settings s _ single, now⟩⟩
    exact (all.2.2.2 once).2

/-- Whoever has a teardown was given the handle. -/
theorem Departs.issued (departs : w.Departs a h targets closing base [] [])
    (conserved : Conserved w.central.registry w.radio.log []) : h ∈ w.radio.log.issued := by
  cases departs with
  | leaving here _ holds => exact conserved.issued_of_held (Registry.mem_held here holds)
  | @gone late _ grown _ asked =>
    have said : .release h ∈ late.requestsOn h := by
      rw [Registry.owed_nil, List.append_nil] at asked
      rw [asked]
      simp
    have back : h ∈ Log.released late := List.mem_filterMap.2 ⟨_, (List.mem_filter.1 said).1, rfl⟩
    refine conserved.balance.symm.subset ?_
    rw [grown, Log.released_append]
    simp [back]

/-- The release has been asked for exactly if everything is settled. -/
theorem Departs.requests (departs : w.Departs a h targets closing base [] []) :
    ∃ late, w.radio.log = base ++ late ∧
      (late.Settled h targets →
        late.requestsOn h = targets.flatMap (switching h false) ++ closing ++ [.release h]) ∧
      (¬ late.Settled h targets → late.requestsOn h = targets.flatMap (switching h false) ++ closing) := by
  cases departs with
  | @leaving p late _ _ _ waits grown parting =>
    have asked := parting.asked
    rw [Registry.owed_nil, List.append_nil] at asked
    exact ⟨late, grown, fun settled => absurd settled (parting.not_settled waits), fun _ => asked⟩
  | @gone late _ grown settled asked =>
    rw [Registry.owed_nil, List.append_nil] at asked
    exact ⟨late, grown, fun _ => asked, fun unsettled => absurd settled unsettled⟩

end

/-- A teardown settles before it releases, and releases then. If in some operation the teardown of a
connection with targets begins, then at the end of this and of every later operation of a run in which
peers are not forgotten at once, the requests made on its handle since then are those that switch off
every target, in order, and that take the link down where this is called for; and then the release, once,
exactly if by then a write that switches a target off was refused or every identifier of the targets is
settled. -/
theorem release_iff_settled (R : Radio σ) (settings : Settings) (s : σ) (before : List (Happening σ))
    (x : Happening σ) (a : Address) (h : Handle) (targets : List Characteristic) (c : Change (Recorded σ))
    (kept : ¬ x.Resets) (targeted : targets ≠ [])
    (made : c ∈ (outcome R settings s before).changes R x) (torn : c.TearsDown a h targets) :
    ∃ closing, (closing = [] ∨ closing = [.disconnect h]) ∧ ∀ after, (∀ y ∈ after, ¬ y.Resets) →
      let w := outcome R settings s (before ++ x :: after)
      w.radio.log.issued.count h ≤ 1 → ∃ late, w.radio.log = c.after.radio.log ++ late ∧
        (late.Settled h targets →
          late.requestsOn h = targets.flatMap (switching h false) ++ closing ++ [.release h]) ∧
        (¬ late.Settled h targets → late.requestsOn h = targets.flatMap (switching h false) ++ closing) := by
  by_cases once : (outcome R settings s (before ++ [x])).radio.log.issued.count h ≤ 1
  · have conserved := conserved_outcome R settings s before
    have held : (outcome R settings s before).central.registry.held.count h ≤ 1 :=
      Nat.le_trans (conserved.count_held_le h) (Nat.le_trans (count_issued_le R settings s before [x] h) once)
    obtain ⟨closing, last, departs⟩ :=
      departing_happen kept (orderly_outcome R settings s before) held targeted R c made torn
    refine ⟨closing, last, ?_⟩
    intro after calm w single
    rw [← outcome_concat] at departs
    have whole : before ++ x :: after = (before ++ [x]) ++ after := by simp
    have known := departs.issued (conserved_outcome R settings s (before ++ [x]))
    have later : (outcome R settings s ((before ++ [x]) ++ after)).Departs a h targets closing
        c.after.radio.log [] [] := departs_outcome departs known calm (whole ▸ single)
    rw [← whole] at later
    exact later.requests
  · refine ⟨[], Or.inl rfl, ?_⟩
    intro after _ w single
    refine absurd (Nat.le_trans (count_issued_le R settings s _ after h) ?_) once
    simpa using single

end World

namespace Encounter

def served : World (Recorded SimulatedRadio) := World.outcome SimulatedRadio.radio settings {} (history.take 7)

def dismissal : Change (Recorded SimulatedRadio) where
  before := served
  after := (served.transition SimulatedRadio.radio.recorded ⟨"a"⟩ .disconnectRequested).2

def farewell : RadioEvent := .descriptorWritten ⟨1⟩ target.uuid disableNotification false

end Encounter

namespace World

open Encounter

theorem dismissal_made : dismissal ∈ served.changes SimulatedRadio.radio (.operation (.disconnect ⟨"a"⟩)) := by
  have opened : served.opening SimulatedRadio.radio (.operation (.disconnect ⟨"a"⟩)) =
      (served, [.tell ⟨"a"⟩ .disconnectRequested]) := by
    simp [opening, Operation.event?, hear_none, openStep]
  rw [changes, opened, journey_single]
  refine List.mem_cons_of_mem _ ?_
  show dismissal ∈ settling SimulatedRadio.radio.recorded ⟨"a"⟩ [] [.disconnectRequested] _
  rw [settling_drive]
  exact List.mem_cons_self

/-- The peer that is sent away keeps its handle until the only write has come to an end, if badly. -/
theorem release_of_dismissal :
    dismissal.TearsDown ⟨"a"⟩ ⟨1⟩ [target.withClientConfiguration] ∧
    (outcome SimulatedRadio.radio settings {}
      (history.take 7 ++ [.operation (.disconnect ⟨"a"⟩)])).radio.log.released = [] ∧
    ∃ closing late, (outcome SimulatedRadio.radio settings {} (history.take 7 ++
        .operation (.disconnect ⟨"a"⟩) :: [.operation (.radioEvent farewell)])).radio.log =
          dismissal.after.radio.log ++ late ∧
      late.requestsOn ⟨1⟩ =
        [target.withClientConfiguration].flatMap (switching ⟨1⟩ false) ++ closing ++ [.release ⟨1⟩] := by
  have torn : dismissal.TearsDown ⟨"a"⟩ ⟨1⟩ [target.withClientConfiguration] := by
    have here : ∃ p, dismissal.before.central.registry.get? ⟨"a"⟩ = some p ∧ p.phase = .ready ∧
        p.handle = some ⟨1⟩ ∧ p.notifyTargets = [target.withClientConfiguration] := ⟨_, by cbv, rfl, rfl, rfl⟩
    have there : ∃ q, dismissal.after.central.registry.get? ⟨"a"⟩ = some q ∧ q.phase = .disconnecting :=
      ⟨_, by cbv, rfl⟩
    obtain ⟨p, here, ready, holds, targets⟩ := here
    obtain ⟨q, there, leaving⟩ := there
    refine ⟨⟨p, here, by simp [ready], holds, targets⟩, fun r there' => ?_⟩
    obtain rfl := Option.some.inj (there.symm.trans there')
    exact leaving
  have held : (outcome SimulatedRadio.radio settings {}
      (history.take 7 ++ [.operation (.disconnect ⟨"a"⟩)])).radio.log.released = [] := by cbv
  obtain ⟨closing, -, later⟩ := release_iff_settled SimulatedRadio.radio settings {} (history.take 7)
    (.operation (.disconnect ⟨"a"⟩)) ⟨"a"⟩ ⟨1⟩ [target.withClientConfiguration] dismissal
    (by simp [Happening.Resets]) (by simp) dismissal_made torn
  have distinct := issued_nodup SimulatedRadio.numbers settings {}
    (history.take 7 ++ .operation (.disconnect ⟨"a"⟩) :: [.operation (.radioEvent farewell)]) (by simp [history])
  have once := List.nodup_iff_count_le_one.1 distinct ⟨1⟩
  obtain ⟨late, grown, released, -⟩ := later [.operation (.radioEvent farewell)]
    (by simp [Happening.Resets]) once
  have told : (outcome SimulatedRadio.radio settings {} (history.take 7 ++ .operation (.disconnect ⟨"a"⟩) ::
      [.operation (.radioEvent farewell)])).radio.log.contains (.told farewell) = true := by cbv
  have untold : dismissal.after.radio.log.contains (.told farewell) = false := by cbv
  have ended : .told farewell ∈ late := by
    rw [grown, List.contains_iff_mem, List.mem_append] at told
    refine told.resolve_left fun early => ?_
    rw [List.contains_iff_mem.2 early] at untold
    cases untold
  refine ⟨torn, held, closing, late, grown, released (Or.inr fun t mem => Or.inr ?_)⟩
  obtain rfl := List.mem_singleton.1 mem
  exact ⟨false, ended⟩

end World

end RadioCentral
