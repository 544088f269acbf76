import RadioCentral.Proofs.LinkProtocol
import RadioCentral.Proofs.Stopping
import RadioCentral.Proofs.Teardown.Parting

/-!
How a teardown goes on. Its peer stays on its way out for as long as something is waited for, and then
goes with its handle; what other peers do, and what happens besides, is nothing to it.
-/
namespace RadioCentral

open Registry (Step owed)

variable {σ : Type}

namespace Registry

variable {r : Registry} {h : Handle} {a : Address} {event : PeerEvent}

/-- Whoever does not hold a handle asks for nothing on it. -/
theorem owed_advance (policy : LinkPolicy) (other : ∀ p, r.get? a = some p → p.handle ≠ some h) :
    owed h (r.advance policy a event).1 = [] := by
  have spec := r.advance_spec policy a event
  generalize (r.advance policy a event).1 = steps at spec ⊢
  generalize (r.advance policy a event).2 = after at spec
  cases spec with
  | ignored => rfl
  | kept here moved => exact owed_run_other (other _ here) _
  | @ended p before here =>
    have elsewhere := other p here
    have reports := owed_run_other elsewhere [.reportDisconnected, .resumeScanning]
    simp only [List.map_cons, List.map_nil] at reports
    rw [owed_append, owed_append, owed_run_other elsewhere, reports, List.append_nil, List.nil_append]
    cases held : p.handle with
    | none => rfl
    | some k =>
      have differs : k ≠ h := fun same => elsewhere (by rw [held, same])
      simp [owed, Step.requests, Request.handle?, differs]

theorem mem_held {p : Peer} (here : r.get? a = some p) (holds : p.handle = some h) : h ∈ r.held :=
  List.mem_filterMap.2 ⟨p, List.mem_of_find?_eq_some here, holds⟩

theorem not_held_advance (policy : LinkPolicy) (unique : r.known.Nodup) (free : h ∉ r.held) :
    h ∉ (r.advance policy a event).2.held := fun held =>
  free ((held_advance policy a event unique).symm.subset (List.mem_append_left _ held))

end Registry

namespace Peer

variable {p q : Peer} {policy : LinkPolicy} {event : PeerEvent} {actions : List Action}

/-- A peer that stays on its way out goes on waiting for what the event has not settled. -/
theorem Proceeds.settles (moved : p.Proceeds policy event q actions) (phase : p.phase = .disconnecting) :
    q.pendingDisable = event.settles p.pendingDisable ∧ event ≠ .disableRefused ∧
      (p.pendingDisable.isEmpty = false → q.pendingDisable.isEmpty = false) := by
  obtain ⟨-, ⟨u, rfl, rfl, more⟩ | ⟨late, rfl⟩⟩ := moved.lingering phase
  · refine ⟨rfl, by simp, fun waits => ?_⟩
    by_cases pending : u ∈ p.pendingDisable
    · exact more pending
    · obtain ⟨v, mem⟩ := UuidSet.exists_mem_of_isEmpty waits
      have kept : v ∈ p.pendingDisable.erase u :=
        UuidSet.mem_erase.2 ⟨mem, fun same => pending (same ▸ mem)⟩
      exact Bool.eq_false_iff.2 fun empty => UuidSet.isEmpty_iff.1 empty v kept
  · cases late <;> exact ⟨rfl, by simp, id⟩

/-- A peer on its way out goes when the last write it waits for has ended, or could not be issued. -/
theorem Ends.settles {before : List Action} (ended : p.Ends event before) (phase : p.phase = .disconnecting)
    (waits : p.pendingDisable.isEmpty = false) :
    event = .disableRefused ∨ event ≠ .disableRefused ∧ (event.settles p.pendingDisable).isEmpty = true := by
  obtain ⟨-, ⟨-, settled⟩ | ⟨u, rfl, last⟩ | refused⟩ := ended.lingering phase
  · rw [settled] at waits
    cases waits
  · exact Or.inr ⟨by simp, last⟩
  · exact Or.inl refused

/-- Notifications are switched off only by who is on its way out. -/
theorem Proceeds.unsubscribes {c : Characteristic} (moved : p.Proceeds policy event q actions)
    (asked : .unsubscribe c ∈ actions) : q.phase = .disconnecting := by
  cases moved with
  | leave => rfl
  | _ => simp at asked

/-- A peer with targets that gets on its way out switches them off. -/
theorem Proceeds.leaves (moved : p.Proceeds policy event q actions) (phase : q.phase = .disconnecting)
    (live : p.phase ≠ .disconnecting) (sound : p.Sound) (targeted : p.notifyTargets ≠ []) :
    ∃ disconnect, q = p.leaving ∧ actions = p.leavingActions disconnect ∧
      p.leaving.pendingDisable.isEmpty = false := by
  cases moved with
  | @leave _ disconnect _ pending => exact ⟨disconnect, rfl, rfl, pending⟩
  | reject discovering => exact absurd (sound.untargeted (by simp [discovering])) targeted
  | settled other | late other => exact absurd other live
  | note | enabled => exact absurd phase live
  | request | linkUp | subscribe | negotiate | ready | negotiated | unnegotiated => cases phase

/-- A live peer that is gone at once had no targets. -/
theorem Ends.untargeted {before : List Action} (ended : p.Ends event before) (live : p.phase ≠ .disconnecting)
    (sound : p.Sound) : p.notifyTargets = [] := by
  cases ended with
  | connectFailed phase => exact sound.untargeted (by simp [phase, Phase.rank])
  | leave _ settled => exact (sound.leaving_isEmpty live).1 settled
  | linkDown phase | lastSettled phase | disableRefused phase => exact absurd phase live

/-- What a peer on its way out refuses settles nothing. -/
theorem settles_of_refused (refused : p.react policy event = .refused p) (phase : p.phase = .disconnecting) :
    event.settles p.pendingDisable = p.pendingDisable ∧ event ≠ .disableRefused := by
  cases event with
  | disableSettled | disableRefused => simp [react, during, phase] at refused
  | _ => exact ⟨rfl, by simp⟩

end Peer

/-- The teardown of the connection of a peer begins: a live peer with a handle and these targets is on
its way out, or gone. -/
structure Change.TearsDown (a : Address) (h : Handle) (targets : List Characteristic) (c : Change σ) :
    Prop where
  before : ∃ p, c.before.central.registry.get? a = some p ∧ p.phase ≠ .disconnecting ∧
    p.handle = some h ∧ p.notifyTargets = targets
  after : ∀ q, c.after.central.registry.get? a = some q → q.phase = .disconnecting

namespace World

/-- How far the teardown of a connection has come since the record was `base`; the steps and events that
are left are those of its peer. -/
inductive Departs (a : Address) (h : Handle) (targets : List Characteristic) (closing : List Request)
    (base : Log) (steps : List Step) (events : List PeerEvent) (w : World (Recorded σ)) : Prop where
  | leaving {p : Peer} {late : Log} (here : w.central.registry.get? a = some p)
      (phase : p.phase = .disconnecting) (holds : p.handle = some h)
      (waits : p.pendingDisable.isEmpty = false) (grown : w.radio.log = base ++ late)
      (parting : late.Parting h targets closing p.pendingDisable steps events)
  | gone {late : Log} (free : h ∉ w.central.registry.held) (grown : w.radio.log = base ++ late)
      (settled : late.Settled h targets)
      (asked : late.requestsOn h ++ owed h steps =
        targets.flatMap (switching h false) ++ closing ++ [.release h])

structure Single (h : Handle) (w : World σ) : Prop where
  unique : w.central.registry.known.Nodup
  once : w.central.registry.held.count h ≤ 1

section

variable {R : Radio σ} {a b : Address} {h : Handle} {targets : List Characteristic} {closing : List Request}
  {base more late : Log} {steps : List Step} {events : List PeerEvent} {event : PeerEvent} {p : Peer}
  {w v : World (Recorded σ)}

theorem Single.congr (single : w.Single h) (registry : v.central.registry = w.central.registry) : v.Single h :=
  ⟨registry ▸ single.unique, registry ▸ single.once⟩

theorem Single.transition (single : w.Single h) (R : Radio (Recorded σ)) :
    (w.transition R b event).2.Single h :=
  ⟨(Registry.known_advance_sublist _ b event _).nodup single.unique,
    Registry.count_held_advance single.unique single.once⟩

/-- An event that settles something, or nothing, leaves a peer waiting or sends it off. -/
theorem departs_advance (R : Radio (Recorded σ)) (single : w.Single h)
    (here : w.central.registry.get? a = some p) (phase : p.phase = .disconnecting) (holds : p.handle = some h)
    (waits : p.pendingDisable.isEmpty = false) (grown : w.radio.log = base ++ late)
    (asked : late.requestsOn h = targets.flatMap (switching h false) ++ closing)
    (accepted : event ≠ .disableRefused →
      late.Parting h targets closing (event.settles p.pendingDisable) [] events)
    (refused : event = .disableRefused → late.DisableRefused h) :
    (w.transition R a event).2.Departs a h targets closing base (w.transition R a event).1 events := by
  have spec := w.central.registry.advance_spec (w.policy R) a event
  have kept := (Registry.held_advance (w.policy R) a event single.unique).count_eq h
  have once := single.once
  show World.Departs a h targets closing base (w.central.registry.advance (w.policy R) a event).1 events
    (w.withRegistry (w.central.registry.advance (w.policy R) a event).2)
  generalize (w.central.registry.advance (w.policy R) a event).1 = steps at spec kept ⊢
  generalize (w.central.registry.advance (w.policy R) a event).2 = after at spec kept ⊢
  cases spec with
  | ignored why =>
    obtain ⟨same, other⟩ := Peer.settles_of_refused (why p here) phase
    exact .leaving here phase holds waits grown (same ▸ accepted other)
  | @kept q r actions there moved =>
    obtain rfl : p = q := Option.some.inj (here.symm.trans there)
    obtain ⟨stays, rfl⟩ := moved.of_disconnecting phase
    obtain ⟨pending, other, goesOn⟩ := moved.settles phase
    have view := Registry.get?_putBack here moved a
    rw [if_pos rfl] at view
    exact .leaving view stays (moved.handle_eq.trans holds) (goesOn waits) grown (pending ▸ accepted other)
  | @ended q before there ended =>
    obtain rfl : p = q := Option.some.inj (here.symm.trans there)
    obtain ⟨rfl, -⟩ := ended.lingering phase
    have free : h ∉ (w.central.registry.remove a).2.held := by
      have back : 0 < (Registry.released ([].map (Step.run · p.handle) ++ (p.handle.toList.map .release ++
          [.run .reportDisconnected p.handle, .run .resumeScanning p.handle]))).count h := by
        simp [holds, Registry.released]
      rw [List.count_append] at kept
      exact List.count_eq_zero.1 (by omega)
    refine .gone free grown ?_ ?_
    · rcases ended.settles phase waits with last | ⟨other, last⟩
      · exact Or.inl (refused last)
      · exact (accepted other).settled last
    · rw [asked, holds]
      simp [owed, Step.requests, Action.requests, Request.handle?]

/-- What the peer of the connection does next. -/
theorem Departs.execute {step : Step} (departs : w.Departs a h targets closing base (step :: steps) events)
    (R : Radio σ) : (w.execute R.recorded b step).2.Departs a h targets closing base steps
      (events ++ (w.execute R.recorded b step).1.toList) := by
  have registry := registry_execute R.recorded b step w
  have disables : ∀ event, (w.execute R.recorded b step).1 = some event → event.isDisable = true →
      ∃ c handle, step = .run (.unsubscribe c) handle := fun _ => isDisable_execute
  obtain ⟨more, written, carried⟩ := carried_execute R b step w
  generalize (w.execute R.recorded b step).2 = v at registry written ⊢
  generalize (w.execute R.recorded b step).1 = due at carried disables ⊢
  cases departs with
  | leaving here phase holds waits grown parting =>
    refine .leaving (by rw [registry]; exact here) phase holds waits
      (by rw [written, grown, List.append_assoc]) ?_
    by_cases off : ∃ c handle, step = .run (.unsubscribe c) handle
    · obtain ⟨c, handle, rfl⟩ := off
      obtain ⟨rfl, -⟩ := parting.own c handle List.mem_cons_self
      have switched : Switched h c false more due := by
        cases carried with
        | unsubscribed switched => exact switched
        | scan what => simp at what
        | asked asks => cases asks
        | silent what => simp at what
      exact parting.switch switched
    · refine parting.step carried (fun c handle same => off ⟨c, handle, same⟩) fun e called => ?_
      exact Bool.eq_false_iff.2 fun disable => off (disables e called disable)
  | gone free grown settled asked =>
    refine .gone (by rw [registry]; exact free) (by rw [written, grown, List.append_assoc])
      (settled.append more) ?_
    rw [Log.requestsOn_append, List.append_assoc, carried.requestsOn h, ← Registry.owed_cons]
    exact asked

/-- An event the peer of the connection has called for itself. -/
theorem Departs.transition (departs : w.Departs a h targets closing base [] (event :: events))
    (single : w.Single h) (R : Radio (Recorded σ)) :
    (w.transition R a event).2.Departs a h targets closing base (w.transition R a event).1 events := by
  cases departs with
  | leaving here phase holds waits grown parting =>
    have asked : _ ++ owed h [] = _ := parting.asked
    rw [Registry.owed_nil, List.append_nil] at asked
    exact departs_advance R single here phase holds waits grown asked parting.follow fun same =>
      parting.noticed.2 (same ▸ List.mem_cons_self)
  | gone free grown settled asked =>
    refine .gone (Registry.not_held_advance _ single.unique free) grown settled ?_
    have none : owed h (w.transition R a event).1 = [] :=
      Registry.owed_advance (w.policy R) fun p here holds => free (Registry.mem_held here holds)
    rw [none]
    exact asked

theorem departs_settle (departs : w.Departs a h targets closing base steps events) (single : w.Single h)
    (R : Radio σ) :
    (w.settle R.recorded a steps events).Departs a h targets closing base [] [] := by
  refine (settle_induction (R := R.recorded) (a := a)
    (I := fun steps events (v : World (Recorded σ)) =>
      v.Departs a h targets closing base steps events ∧ v.Single h)
    ?_ ?_ ⟨departs, single⟩).1
  · rintro step steps events v ⟨now, single⟩
    exact ⟨now.execute R, single.congr (registry_execute R.recorded a step v)⟩
  · rintro event events v ⟨now, single⟩
    exact ⟨now.transition single R.recorded, single.transition R.recorded⟩

/-! ### What others do -/

structure Elsewhere (a b : Address) (h : Handle) (targets : List Characteristic) (closing : List Request)
    (base : Log) (steps : List Step) (w : World (Recorded σ)) : Prop where
  departs : w.Departs a h targets closing base [] []
  single : w.Single h
  silent : owed h steps = []
  other : ∀ p, w.central.registry.get? b = some p → p.handle ≠ some h
  away : b ≠ a ∨ h ∉ w.central.registry.held

theorem Departs.append (departs : w.Departs a h targets closing base [] [])
    (registry : v.central.registry = w.central.registry) (grown : v.radio.log = w.radio.log ++ more)
    (silent : more.requestsOn h = []) (unended : h ∈ w.central.registry.held → ∀ u, ¬ more.DisableEnded h u) :
    v.Departs a h targets closing base [] [] := by
  cases departs with
  | leaving here phase holds waits before parting =>
    have held := Registry.mem_held here holds
    exact .leaving (by rw [registry]; exact here) phase holds waits (by rw [grown, before, List.append_assoc])
      (parting.append silent (unended held))
  | gone free before settled asked =>
    refine .gone (by rw [registry]; exact free) (by rw [grown, before, List.append_assoc])
      (settled.append more) ?_
    rw [Log.requestsOn_append, silent, List.append_nil]
    exact asked

theorem Elsewhere.execute {step : Step} (elsewhere : w.Elsewhere a b h targets closing base (step :: steps))
    (R : Radio σ) : (w.execute R.recorded b step).2.Elsewhere a b h targets closing base steps := by
  have registry := registry_execute R.recorded b step w
  obtain ⟨more, written, carried⟩ := carried_execute R b step w
  generalize (w.execute R.recorded b step).2 = v at registry written ⊢
  have silent := elsewhere.silent
  rw [Registry.owed_cons, List.append_eq_nil_iff, ← carried.requestsOn h] at silent
  exact {
    departs := elsewhere.departs.append registry written silent.1 fun _ _ => Log.not_disableEnded carried.untold
    single := elsewhere.single.congr registry
    silent := silent.2
    other := registry ▸ elsewhere.other
    away := registry ▸ elsewhere.away }

theorem Elsewhere.transition (elsewhere : w.Elsewhere a b h targets closing base []) (R : Radio (Recorded σ))
    (event : PeerEvent) :
    (w.transition R b event).2.Elsewhere a b h targets closing base (w.transition R b event).1 := by
  constructor
  case departs =>
    cases elsewhere.departs with
    | leaving here phase holds waits grown parting =>
      have held := Registry.mem_held here holds
      have other : a ≠ b := Ne.symm (elsewhere.away.resolve_right fun free => free held)
      exact .leaving ((Registry.get?_advance_ne other).trans here) phase holds waits grown parting
    | gone free grown settled asked =>
      exact .gone (Registry.not_held_advance _ elsewhere.single.unique free) grown settled asked
  case single => exact elsewhere.single.transition R
  case silent => exact Registry.owed_advance _ elsewhere.other
  case other =>
    intro q there holds
    obtain ⟨p, here, same⟩ := Registry.handle_advance there
    exact elsewhere.other p here (same ▸ holds)
  case away => exact elsewhere.away.imp_right (Registry.not_held_advance _ elsewhere.single.unique)

theorem Elsewhere.settle (elsewhere : w.Elsewhere a b h targets closing base steps) (R : Radio σ)
    (events : List PeerEvent) :
    (w.settle R.recorded b steps events).Departs a h targets closing base [] [] :=
  (settle_induction (R := R.recorded) (a := b)
    (I := fun steps _ (v : World (Recorded σ)) => v.Elsewhere a b h targets closing base steps)
    (fun _ _ _ _ now => now.execute R) (fun event _ _ now => now.transition R.recorded event) elsewhere).departs

/-- Whoever is not the peer of the connection does not hold its handle. -/
theorem Departs.elsewhere (departs : w.Departs a h targets closing base [] []) (single : w.Single h)
    (away : b ≠ a ∨ h ∉ w.central.registry.held) : w.Elsewhere a b h targets closing base [] where
  departs := departs
  single := single
  silent := rfl
  away := away
  other q there held := by
    cases departs with
    | leaving here phase holds =>
      have same := Registry.holder_unique single.unique single.once here holds there held
      have among := Registry.mem_held here holds
      exact away.elim (fun other => other same) fun free => free among
    | gone free => exact free (Registry.mem_held there held)

/-- An event that settles nothing, whoever it is for. -/
theorem Departs.drive (departs : w.Departs a h targets closing base [] []) (single : w.Single h) (R : Radio σ)
    (calm : event.isDisable = false) (b : Address) :
    (w.drive R.recorded b event).Departs a h targets closing base [] [] := by
  by_cases away : b ≠ a ∨ h ∉ w.central.registry.held
  · exact (departs.elsewhere single away).settle R [event]
  · obtain ⟨rfl, held⟩ : b = a ∧ h ∈ w.central.registry.held := by simpa using away
    refine departs_settle ?_ single R
    cases departs with
    | gone free => exact absurd held free
    | leaving here phase holds waits grown parting =>
      exact .leaving here phase holds waits grown (parting.call calm)

/-- The radio tells of the end of a write on the connection. -/
theorem Departs.tell (departs : w.Departs a h targets closing base [] []) (single : w.Single h) (R : Radio σ)
    (held : h ∈ w.central.registry.held) (u : Uuid) (success : Bool) :
    ((w.hear (some (.descriptorWritten h u disableNotification success))).drive R.recorded a
      (.disableSettled u)).Departs a h targets closing base [] [] := by
  rw [drive_eq]
  have heard : (w.hear (some (.descriptorWritten h u disableNotification success))).Single h :=
    single.congr rfl
  refine departs_settle ?_ (heard.transition R.recorded) R
  cases departs with
  | gone free => exact absurd held free
  | @leaving p late here phase holds waits grown parting =>
    have told := parting.tell u success
    have asked := told.asked
    rw [Registry.owed_nil, List.append_nil] at asked
    have more : (w.hear (some (.descriptorWritten h u disableNotification success))).radio.log =
        base ++ (late ++ [.told (.descriptorWritten h u disableNotification success)]) := by
      rw [← List.append_assoc, ← grown]
      rfl
    exact departs_advance R.recorded heard here phase holds waits more asked (fun _ => told) (by simp)

/-! ### Turns -/

theorem disableSettled_of_means {service : Uuid} {heard : RadioEvent} {k : Handle} {told : PeerEvent}
    (means : heard.peerEvent? service = some (k, told)) (disable : told.isDisable = true) :
    ∃ u success, heard = .descriptorWritten k u disableNotification success ∧ told = .disableSettled u := by
  cases heard with
  | descriptorWritten j u value success =>
    simp only [RadioEvent.peerEvent?, Option.map_eq_some_iff, Prod.mk.injEq] at means
    obtain ⟨result, stands, rfl, rfl⟩ := means
    unfold Subscription.resultEvent? at stands
    split at stands
    · cases success <;> cases stands <;> cases disable
    · split at stands
      · rename_i off
        cases stands
        exact ⟨u, success, by rw [off], rfl⟩
      · cases stands
  | connected | disconnected | servicesDiscovered | unitSizeChanged =>
    cases means
    cases disable
  | advertisement | characteristicChanged | characteristicWritten => cases means

/-- Only what means the end of a write on the connection is told of one. -/
theorem not_disableEnded_told (service : Uuid) {heard : RadioEvent} {u : Uuid}
    (other : ∀ u, heard.peerEvent? service ≠ some (h, .disableSettled u)) :
    ¬ Log.DisableEnded h u [.told heard] := by
  rintro ⟨success, mem⟩
  obtain rfl : .descriptorWritten h u disableNotification success = heard := by simpa using mem
  exact other u (by
    simp [RadioEvent.peerEvent?, Subscription.resultEvent?, disableNotification, enableIndication])

theorem Departs.reached {heard : RadioEvent} {told : PeerEvent}
    (departs : w.Departs a h targets closing base [] [])
    (single : w.Single h) (orderly : w.central.registry.Orderly) (leads : w.central.registry.Leads h)
    (reaches : w.Reaches heard b told) (R : Radio σ) :
    ((w.hear (some heard)).drive R.recorded b told).Departs a h targets closing base [] [] := by
  obtain ⟨k, p, means, known, here, holds⟩ := reaches.holds orderly
  have heardSingle : (w.hear (some heard)).Single h := single.congr rfl
  by_cases same : k = h
  · subst same
    have held := Registry.mem_held here holds
    by_cases disable : told.isDisable = true
    · obtain ⟨u, success, rfl, rfl⟩ := disableSettled_of_means means disable
      cases departs with
      | gone free => exact absurd held free
      | leaving there phase holds' waits grown parting =>
        obtain rfl := Registry.holder_unique single.unique single.once there holds' here holds
        exact (Departs.leaving there phase holds' waits grown parting).tell single R held u success
    · have calm := Bool.eq_false_iff.2 disable
      refine Departs.drive ?_ heardSingle R calm b
      refine departs.append rfl rfl (Log.requestsOn_told _ heard) fun _ u =>
        not_disableEnded_told w.central.settings.service fun v settles => ?_
      obtain ⟨-, rfl⟩ := Prod.mk.inj (Option.some.inj (means.symm.trans settles))
      cases calm
  · have away : b ≠ a ∨ h ∉ w.central.registry.held := by
      refine or_iff_not_imp_right.2 fun held other => same ?_
      cases departs with
      | gone free => exact absurd held (by simpa using free)
      | leaving there phase holds' =>
        rw [other, there] at here
        obtain rfl := Option.some.inj here
        exact Option.some.inj (holds.symm.trans holds')
    refine Elsewhere.settle (Departs.elsewhere ?_ heardSingle away) R [told]
    refine departs.append rfl rfl (Log.requestsOn_told _ heard) fun _ u =>
      not_disableEnded_told w.central.settings.service fun v settles => same ?_
    exact (Prod.mk.inj (Option.some.inj (means.symm.trans settles))).1

/-- A new peer has no handle. -/
theorem Departs.admitted {data : Bytes} (departs : w.Departs a h targets closing base [] [])
    (single : w.Single h) (unknown : w.central.registry.contains b = false) (R : Radio σ) :
    (((w.hear (some (.advertisement b data))).enter b).settle R.recorded b
      [.run .pauseScanning none, .run .connect none] []).Departs a h targets closing base [] [] := by
  have heard : (w.hear (some (.advertisement b data))).Departs a h targets closing base [] [] :=
    departs.append rfl rfl (Log.requestsOn_told _ _) fun _ u =>
      not_disableEnded_told w.central.settings.service fun _ settles => by cases settles
  have view := Registry.get?_enroll unknown
  have held := Registry.held_enroll w.central.registry b
  refine Elsewhere.settle ?_ R []
  constructor
  case departs =>
    cases heard with
    | @leaving p late here phase holds waits grown parting =>
      have other : a ≠ b := by
        rintro rfl
        rw [Registry.contains, show w.central.registry.get? a = some p from here] at unknown
        cases unknown
      refine .leaving ?_ phase holds waits grown parting
      exact ((view a).trans (if_neg other)).trans here
    | gone free grown settled asked => exact .gone (held ▸ free) grown settled asked
  case single => exact ⟨Registry.unique_enroll single.unique unknown, held ▸ single.once⟩
  case silent => rfl
  case other =>
    intro p there
    rw [show ((w.hear (some (.advertisement b data))).enter b).central.registry.get? b = _ from view b,
      if_pos rfl] at there
    obtain rfl := Option.some.inj there
    simp
  case away =>
    cases departs with
    | leaving here =>
      left
      rintro rfl
      rw [Registry.contains, here] at unknown
      cases unknown
    | gone free => exact Or.inr (held ▸ free)

/-- Another handle is given out. -/
theorem Departs.attached {k : Handle} (departs : w.Departs a h targets closing base [] [])
    (single : w.Single h) (here : w.central.registry.get? b = some p) (phase : p.phase = .connecting)
    (bare : p.handle = none) (other : k ≠ h) (registry : v.central.registry = (w.central.registry.attach b k).2)
    (grown : v.radio.log = w.radio.log ++ more) (dials : Dials b more (some k)) :
    v.Departs a h targets closing base [] [] := by
  have silent : Log.requestsOn h more = [] := dials.requestsOn_eq h
  have view := Registry.get?_attach (h := k) here bare phase
  cases departs with
  | leaving there away holds waits before parting =>
    have apart : a ≠ b := by
      rintro rfl
      rw [Option.some.inj (there.symm.trans here), phase] at away
      cases away
    refine .leaving ?_ away holds waits (by rw [grown, before, List.append_assoc])
      (parting.append silent fun _ => Log.not_disableEnded dials.silent)
    rw [registry, view, if_neg apart]
    exact there
  | gone free before settled asked =>
    obtain ⟨-, -, held⟩ := Registry.held_attach (h := k) single.unique here bare phase
    refine .gone ?_ (by rw [grown, before, List.append_assoc]) (settled.append more) ?_
    · rw [registry, held.mem_iff, List.mem_cons, not_or]
      exact ⟨Ne.symm other, free⟩
    · rw [Log.requestsOn_append, silent, List.append_nil]
      exact asked

/-- Whatever happens, but for forgetting every peer, the teardown goes on. -/
theorem departs_turn {x : Happening σ} {w' : World (Recorded σ)} (turn : Turn R x w w')
    (kept : ¬ x.Resets) (conserved : Conserved w.central.registry w.radio.log [])
    (orderly : w.central.registry.Orderly) (leads : w.central.registry.Leads h)
    (issued : h ∈ w.radio.log.issued) (once : w'.radio.log.issued.count h ≤ 1)
    (departs : w.Departs a h targets closing base [] []) : w'.Departs a h targets closing base [] [] := by
  have single : w.Single h := by
    have before := (issued_turn R turn).count_le h
    have balance := conserved.count_held_le h
    exact ⟨conserved.unique, by omega⟩
  cases turn with
  | quiet registry _ grown idle =>
    refine departs.append registry grown (Log.requestsOn_eq_nil fun q hq => ?_) ?_
    · obtain ⟨e, he, hreq⟩ := List.mem_filterMap.1 hq
      rcases idle e he with ⟨asked, answer, rfl, free⟩ | ⟨event, rfl, -⟩
      · obtain rfl : asked = q := by simpa [Exchange.request?] using hreq
        simp [free]
      · cases hreq
    · rintro held u ⟨success, mem⟩
      obtain ⟨p, among, holds⟩ := List.mem_filterMap.1 held
      have here := Registry.get?_of_mem conserved.unique among
      rcases idle _ mem with ⟨_, _, same, -⟩ | ⟨heard, same, unreached⟩
      · cases same
      · cases same
        refine unreached p.address (.disableSettled u) ⟨h, ?_, leads _ p here holds⟩
        simp [RadioEvent.peerEvent?, Subscription.resultEvent?, disableNotification, enableIndication]
  | reached reaches => exact departs.reached single orderly leads reaches R
  | disconnected b => exact departs.drive single R rfl b
  | @admitted _ _ b data unknown => exact departs.admitted single unknown R
  | passed _ registry log | dropped registry log =>
    have silent : Log.requestsOn h [] = [] := rfl
    exact departs.append registry (by rw [log, List.append_nil]) silent fun _ _ =>
      Log.not_disableEnded (by simp)
  | @attached _ _ _ b p k more here phase bare registry grown dials =>
    have other : k ≠ h := by
      rintro rfl
      have some := List.count_pos_iff.2 issued
      simp only [grown, Log.issued_append, dials.issued_eq, List.count_append, Option.toList_some,
        List.count_singleton_self] at once
      omega
    exact departs.attached single here phase bare other registry grown dials
  | @failed _ _ v b more waits registry grown dials =>
    have told : v.Departs a h targets closing base [] [] :=
      departs.append registry grown (dials.requestsOn_eq _) fun _ _ =>
        Log.not_disableEnded dials.silent
    exact told.drive (single.congr registry) R rfl b
  | @written _ _ _ b p k c data answer here ready holds registry _ grown =>
    have other : k ≠ h := by
      rintro rfl
      cases departs with
      | gone free => exact free (Registry.mem_held here holds)
      | leaving there phase holds' =>
        obtain rfl := Registry.holder_unique single.unique single.once there holds' here holds
        rw [Option.some.inj (here.symm.trans there), phase] at ready
        cases ready
    refine departs.append registry grown ?_ fun _ _ => Log.not_disableEnded (by simp)
    simp [Log.requestsOn_asked, Request.handle?, other]
  | reset order => exact absurd ⟨order, rfl⟩ kept

end

end World

end RadioCentral
