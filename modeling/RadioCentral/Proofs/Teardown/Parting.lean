import RadioCentral.Proofs.Conversation
import RadioCentral.Proofs.Enabling

/-!
What the record of a teardown holds. Notifications are switched off one after the other, and then each of
their identifiers is waited for: until a write for it has come to its end, well or badly, or not at all
where a characteristic with that identifier has no descriptor to be written.
-/
namespace RadioCentral

open Registry (Step owed)

variable {σ : Type}

def PeerEvent.isDisable : PeerEvent → Bool
  | .disableSettled _ | .disableRefused => true
  | .connectRequested | .connectFailed | .linkUp | .linkDown | .discoveryRefused | .servicesDiscovered _
  | .enabled _ | .enableFailed _ | .negotiationUnavailable | .unitSizeReported _ | .disconnectRequested => false

def PeerEvent.settles (pending : UuidSet) : PeerEvent → UuidSet
  | .disableSettled u => pending.erase u
  | _ => pending

namespace Log

def DisableRefused (h : Handle) (log : Log) : Prop :=
  ∃ d, .asked (.writeDescriptor h d disableNotification) false ∈ log

def DisableEnded (h : Handle) (u : Uuid) (log : Log) : Prop :=
  ∃ success, .told (.descriptorWritten h u disableNotification success) ∈ log

/-- A teardown has nothing more to wait for. -/
def Settled (h : Handle) (targets : List Characteristic) (log : Log) : Prop :=
  log.DisableRefused h ∨ ∀ t ∈ targets, BareAmong targets t.uuid ∨ log.DisableEnded h t.uuid

/-- A teardown goes on: `log` is the record since it began, `pending` what is waited for. The requests
made and those still owed are what switches the targets off. An identifier is waited for until its
write has come to an end, or a target with it turned out to have no descriptor. -/
structure Parting (h : Handle) (targets : List Characteristic) (closing : List Request)
    (pending : UuidSet) (steps : List Step) (events : List PeerEvent) (log : Log) : Prop where
  asked : log.requestsOn h ++ owed h steps = targets.flatMap (switching h false) ++ closing
  own : ∀ c handle, .run (.unsubscribe c) handle ∈ steps → handle = some h ∧ c ∈ targets
  noticed : log.DisableRefused h ↔ .disableRefused ∈ events
  bare : ∀ u, .disableSettled u ∈ events → BareAmong targets u
  waited : ∀ t ∈ targets, t.uuid ∈ pending ∨ BareAmong targets t.uuid ∨ log.DisableEnded h t.uuid
  within : ∀ u ∈ pending, ∃ t ∈ targets, t.uuid = u
  unended : ∀ u ∈ pending, ¬ log.DisableEnded h u
  unsettled : ∀ u ∈ pending, ∀ c ∈ targets, c.uuid = u → c.clientConfiguration? = none →
    .run (.unsubscribe c) (some h) ∈ steps ∨ .disableSettled u ∈ events

section

variable {h : Handle} {u : Uuid} {log more : Log}

theorem disableRefused_append :
    DisableRefused h (log ++ more) ↔ log.DisableRefused h ∨ more.DisableRefused h := by
  simp only [DisableRefused, List.mem_append, exists_or]

theorem disableEnded_append :
    DisableEnded h u (log ++ more) ↔ log.DisableEnded h u ∨ more.DisableEnded h u := by
  simp only [DisableEnded, List.mem_append, exists_or]

theorem not_disableEnded (untold : ∀ event, .told event ∉ more) : ¬ more.DisableEnded h u :=
  fun ⟨_, mem⟩ => untold _ mem

/-- A refused write is among the requests of its handle. -/
theorem not_disableRefused (silent : more.requestsOn h = []) : ¬ more.DisableRefused h := by
  rintro ⟨d, mem⟩
  have said : .writeDescriptor h d disableNotification ∈ more.requestsOn h :=
    List.mem_filter.2 ⟨List.mem_filterMap.2 ⟨_, mem, rfl⟩, by simp [Request.handle?]⟩
  rw [silent] at said
  cases said

theorem Settled.append {targets : List Characteristic} (settled : log.Settled h targets) (more : Log) :
    Settled h targets (log ++ more) := by
  refine settled.imp (fun refused => disableRefused_append.2 (Or.inl refused)) fun all t mem => ?_
  exact (all t mem).imp_right fun ended => disableEnded_append.2 (Or.inl ended)

end

end Log

theorem Carried.untold {step : Step} {log : Log} {event : Option PeerEvent} (carried : Carried step log event)
    (heard : RadioEvent) : .told heard ∉ log := by
  intro mem
  cases carried with
  | scan _ about =>
    obtain ⟨request, answer, same, -⟩ := about _ mem
    cases same
  | subscribed switched | unsubscribed switched => cases switched <;> simp at mem
  | released | asked => simp at mem
  | queued | unqueued | silent | unlinked => cases mem

/-- Only the steps that are there for it switch notifications off. -/
theorem Carried.not_disableRefused {step : Step} {log : Log} {event : Option PeerEvent} {h : Handle}
    (carried : Carried step log event) (other : ∀ c, step ≠ .run (.unsubscribe c) (some h)) :
    ¬ log.DisableRefused h := by
  rintro ⟨d, mem⟩
  cases carried with
  | scan _ about =>
    obtain ⟨request, answer, same, free⟩ := about _ mem
    cases same
    cases free
  | subscribed switched =>
    cases switched <;> simp [Subscription.value, enableIndication, disableNotification] at mem
  | @unsubscribed k c _ _ switched =>
    have same : k = h := by cases switched <;> simp_all
    exact other c (same ▸ rfl)
  | asked asks => cases asks <;> simp at mem
  | released => simp at mem
  | queued | unqueued | silent | unlinked => cases mem

/-- What a step calls for settles nothing unless it switches a notification off. -/
theorem World.isDisable_execute {R : Radio σ} {a : Address} {step : Step} {w : World σ} {event : PeerEvent}
    (due : (w.execute R a step).1 = some event) (disable : event.isDisable = true) :
    ∃ c handle, step = .run (.unsubscribe c) handle := by
  cases step with
  | release => cases due
  | run action handle =>
    cases action with
    | unsubscribe c => exact ⟨c, handle, rfl⟩
    | subscribe c =>
      cases handle with
      | none =>
        obtain rfl : PeerEvent.enableFailed c.uuid = event := Option.some.inj due
        cases disable
      | some h =>
        simp only [execute, perform, switch, Subscription.event?] at due
        split at due <;> simp at due <;> (subst due; cases disable)
    | connect | discoverServices | requestUnitSize =>
      simp only [execute, perform] at due
      split at due <;> cases due
      cases disable
    | pauseScanning | resumeScanning | invalidateCache | disconnect | release | forget | reportConnected
    | reportDisconnected => cases due

namespace Log

variable {h : Handle} {targets : List Characteristic} {closing : List Request} {pending : UuidSet}
  {steps : List Step} {events : List PeerEvent} {log more : Log} {event : PeerEvent}

namespace Parting

/-- When a teardown begins everything is waited for, and nothing has been done. -/
theorem start (asked : owed h steps = targets.flatMap (switching h false) ++ closing)
    (own : ∀ c handle, .run (.unsubscribe c) handle ∈ steps → handle = some h ∧ c ∈ targets)
    (each : ∀ c ∈ targets, .run (.unsubscribe c) (some h) ∈ steps)
    (calm : ∀ e ∈ events, e.isDisable = false) (waited : ∀ u, u ∈ pending ↔ u ∈ targets.map (·.uuid)) :
    Parting h targets closing pending steps events [] where
  asked := asked
  own := own
  noticed := iff_of_false (fun ⟨_, mem⟩ => nomatch mem) fun mem => absurd (calm _ mem) (by decide)
  bare u mem := absurd (calm _ mem) (by simp [PeerEvent.isDisable])
  waited t mem := Or.inl ((waited t.uuid).2 (List.mem_map_of_mem mem))
  within u mem := List.mem_map.1 ((waited u).1 mem)
  unended u _ := fun ⟨_, mem⟩ => by cases mem
  unsettled u _ c mem _ _ := Or.inl (each c mem)

/-- One more target is switched off. -/
theorem switch {c : Characteristic} {event : Option PeerEvent}
    (parting : log.Parting h targets closing pending (.run (.unsubscribe c) (some h) :: steps) events)
    (switched : Switched h c false more event) :
    Parting h targets closing pending steps (events ++ event.toList) (log ++ more) := by
  have carried : Carried (.run (.unsubscribe c) (some h)) more event := .unsubscribed switched
  have silent : ∀ u, ¬ more.DisableEnded h u := fun u => not_disableEnded carried.untold
  have target : c ∈ targets := (parting.own c _ List.mem_cons_self).2
  constructor
  case asked =>
    rw [requestsOn_append, List.append_assoc, carried.requestsOn h, ← Registry.owed_cons]
    exact parting.asked
  case own => exact fun c' handle mem => parting.own c' handle (List.mem_cons_of_mem _ mem)
  case noticed =>
    rw [disableRefused_append, List.mem_append, parting.noticed]
    refine or_congr_right ?_
    cases switched <;> simp [DisableRefused, Subscription.value]
  case bare =>
    intro u mem
    rcases List.mem_append.1 mem with old | new
    · exact parting.bare u old
    · cases switched with
      | bare without =>
        obtain rfl : u = c.uuid := by simpa using new
        exact ⟨c, target, rfl, without⟩
      | written | refused => simp at new
  case waited =>
    intro t mem
    exact (parting.waited t mem).imp_right (Or.imp_right fun ended => disableEnded_append.2 (Or.inl ended))
  case within => exact parting.within
  case unended =>
    intro u mem ended
    exact (disableEnded_append.1 ended).elim (parting.unended u mem) (silent u)
  case unsettled =>
    intro u mem c' mem' same without
    rcases parting.unsettled u mem c' mem' same without with step | known
    · rcases List.mem_cons.1 step with this | later
      · obtain rfl : c' = c := by simpa using this
        cases switched with
        | bare => exact Or.inr (by simp [same])
        | written found | refused found => simp [found] at without
      · exact Or.inl later
    · exact Or.inr (List.mem_append_left _ known)

/-- What neither asks for anything on the connection nor tells of the end of a write is nothing to a
teardown. -/
theorem append (parting : log.Parting h targets closing pending [] events) (silent : more.requestsOn h = [])
    (unended : ∀ u, ¬ more.DisableEnded h u) :
    Parting h targets closing pending [] events (log ++ more) where
  asked := by
    rw [requestsOn_append, silent, List.append_nil]
    exact parting.asked
  own := parting.own
  noticed := by
    rw [disableRefused_append, ← parting.noticed]
    exact or_iff_left (not_disableRefused silent)
  bare := parting.bare
  waited t mem :=
    (parting.waited t mem).imp_right (Or.imp_right fun ended => disableEnded_append.2 (Or.inl ended))
  within := parting.within
  unended u mem ended := (disableEnded_append.1 ended).elim (parting.unended u mem) (unended u)
  unsettled := parting.unsettled

/-- The other steps of a teardown. -/
theorem step {step : Step} {event : Option PeerEvent}
    (parting : log.Parting h targets closing pending (step :: steps) events)
    (carried : Carried step more event) (other : ∀ c handle, step ≠ .run (.unsubscribe c) handle)
    (calm : ∀ e ∈ event, e.isDisable = false) :
    Parting h targets closing pending steps (events ++ event.toList) (log ++ more) := by
  have kept (e : PeerEvent) (disable : e.isDisable = true) : e ∈ events ++ event.toList ↔ e ∈ events := by
    refine ⟨fun mem => (List.mem_append.1 mem).resolve_right fun new => ?_, List.mem_append_left _⟩
    rw [calm e (by simpa using new)] at disable
    cases disable
  constructor
  case asked =>
    rw [requestsOn_append, List.append_assoc, carried.requestsOn h, ← Registry.owed_cons]
    exact parting.asked
  case own => exact fun c handle mem => parting.own c handle (List.mem_cons_of_mem _ mem)
  case noticed =>
    rw [disableRefused_append, kept _ rfl, ← parting.noticed]
    exact or_iff_left (carried.not_disableRefused fun c => other c _)
  case bare => exact fun u mem => parting.bare u ((kept _ rfl).1 mem)
  case waited =>
    intro t mem
    exact (parting.waited t mem).imp_right (Or.imp_right fun ended => disableEnded_append.2 (Or.inl ended))
  case within => exact parting.within
  case unended =>
    intro u mem ended
    exact (disableEnded_append.1 ended).elim (parting.unended u mem) (not_disableEnded carried.untold)
  case unsettled =>
    intro u mem c mem' same without
    refine (parting.unsettled u mem c mem' same without).imp (fun known => ?_) (kept _ rfl).2
    exact (List.mem_cons.1 known).resolve_left fun this => other c _ this.symm

/-- The radio tells of the end of a write. -/
theorem tell (parting : log.Parting h targets closing pending [] []) (u : Uuid) (success : Bool) :
    Parting h targets closing (pending.erase u) [] []
      (log ++ [.told (.descriptorWritten h u disableNotification success)]) where
  asked := by
    rw [requestsOn_append]
    exact (List.append_nil _).symm ▸ parting.asked
  own := parting.own
  noticed := by
    rw [disableRefused_append, ← parting.noticed]
    exact or_iff_left fun ⟨_, mem⟩ => by simp at mem
  bare := parting.bare
  waited t mem := by
    by_cases same : t.uuid = u
    · exact Or.inr (Or.inr ⟨success, by simp [same]⟩)
    · rcases parting.waited t mem with waits | known | ended
      · exact Or.inl (UuidSet.mem_erase.2 ⟨waits, same⟩)
      · exact Or.inr (Or.inl known)
      · exact Or.inr (Or.inr (disableEnded_append.2 (Or.inl ended)))
  within v mem := parting.within v (UuidSet.mem_erase.1 mem).1
  unended v mem ended := by
    obtain ⟨mem, other⟩ := UuidSet.mem_erase.1 mem
    rcases disableEnded_append.1 ended with old | ⟨_, new⟩
    · exact parting.unended v mem old
    · simp [other] at new
  unsettled v mem := parting.unsettled v (UuidSet.mem_erase.1 mem).1

/-- A target without a descriptor settles its identifier; other events but a refusal settle nothing. -/
theorem follow (parting : log.Parting h targets closing pending [] (event :: events))
    (accepted : event ≠ .disableRefused) :
    log.Parting h targets closing (event.settles pending) [] events := by
  have fewer : ∀ v ∈ event.settles pending, v ∈ pending ∧ event ≠ .disableSettled v := by
    intro v mem
    cases event with
    | disableSettled u =>
      obtain ⟨mem, other⟩ := UuidSet.mem_erase.1 mem
      exact ⟨mem, fun same => other (by simpa using same.symm)⟩
    | _ => exact ⟨mem, by simp⟩
  constructor
  case asked => exact parting.asked
  case own => exact parting.own
  case noticed => simpa [Ne.symm accepted] using parting.noticed
  case bare => exact fun v mem => parting.bare v (List.mem_cons_of_mem _ mem)
  case waited =>
    intro t mem
    rcases parting.waited t mem with waits | known
    · cases event with
      | disableSettled u =>
        by_cases same : t.uuid = u
        · exact Or.inr (Or.inl (same ▸ parting.bare u List.mem_cons_self))
        · exact Or.inl (UuidSet.mem_erase.2 ⟨waits, same⟩)
      | _ => exact Or.inl waits
    · exact Or.inr known
  case within => exact fun v mem => parting.within v (fewer v mem).1
  case unended => exact fun v mem => parting.unended v (fewer v mem).1
  case unsettled =>
    intro v mem c mem' same without
    obtain ⟨waits, other⟩ := fewer v mem
    refine (parting.unsettled v waits c mem' same without).imp_right fun known => ?_
    exact (List.mem_cons.1 known).resolve_left (Ne.symm other)

/-- An event that settles nothing may come at any time. -/
theorem call (parting : log.Parting h targets closing pending [] []) (calm : event.isDisable = false) :
    log.Parting h targets closing pending [] [event] where
  asked := parting.asked
  own := parting.own
  noticed := by
    refine parting.noticed.trans (iff_of_false List.not_mem_nil fun mem => ?_)
    rw [← List.mem_singleton.1 mem] at calm
    cases calm
  bare u mem := by
    rw [← List.mem_singleton.1 mem] at calm
    cases calm
  waited := parting.waited
  within := parting.within
  unended := parting.unended
  unsettled u mem c mem' same without :=
    (parting.unsettled u mem c mem' same without).imp id fun old => nomatch old

/-- With nothing more to wait for, everything is settled. -/
theorem settled (parting : log.Parting h targets closing pending [] events) (last : pending.isEmpty = true) :
    log.Settled h targets :=
  Or.inr fun t mem => (parting.waited t mem).resolve_left (UuidSet.isEmpty_iff.1 last t.uuid)

/-- While something is waited for, not everything is settled. -/
theorem not_settled (parting : log.Parting h targets closing pending [] [])
    (waits : pending.isEmpty = false) : ¬ log.Settled h targets := by
  rintro (refused | all)
  · cases parting.noticed.1 refused
  · obtain ⟨u, mem⟩ := UuidSet.exists_mem_of_isEmpty waits
    obtain ⟨t, target, rfl⟩ := parting.within u mem
    rcases all t target with ⟨c, mem', same, without⟩ | ended
    · rcases parting.unsettled t.uuid mem c mem' same without with step | event
      · cases step
      · cases event
    · exact parting.unended t.uuid mem ended

end Parting

end Log

end RadioCentral
