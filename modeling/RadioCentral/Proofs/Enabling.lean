import RadioCentral.Proofs.Preparation

/-!
Switching notifications on before a peer gets ready. The characteristics that are wanted are switched
on one after the other, and then each of their identifiers is waited for: until the radio tells of a
write that went well, or not at all where a characteristic with that identifier has no descriptor to
be written. Characteristics that share an identifier are thus confirmed together, by one answer.
-/
namespace RadioCentral

open Registry (Step)

variable {σ : Type}

def Exchange.Enables (h : Handle) (e : Exchange) : Prop :=
  ∃ d answer, e = .asked (.writeDescriptor h d enableIndication) answer

/-- The record of switching characteristics on one after the other. -/
inductive SwitchedOn (h : Handle) : List Characteristic → Log → Prop where
  | none : SwitchedOn h [] []
  | next {cs : List Characteristic} {c : Characteristic} {log more : Log} {event : Option PeerEvent}
      (earlier : SwitchedOn h cs log) (last : Switched h c true more event) :
      SwitchedOn h (cs ++ [c]) (log ++ more)

/-- Some characteristic with an identifier has no descriptor to be written. -/
def BareAmong (targets : List Characteristic) (u : Uuid) : Prop :=
  ∃ c ∈ targets, c.uuid = u ∧ c.clientConfiguration? = none

/-- A target with a descriptor shares its identifier with none that has no descriptor, if it shares it
with none at all. -/
theorem not_bareAmong {targets : List Characteristic} (distinct : (targets.map (·.uuid)).Nodup)
    {t : Characteristic} (ht : t ∈ targets) (some : t.clientConfiguration?.isSome) :
    ¬ BareAmong targets t.uuid := by
  rintro ⟨c, hc, same, without⟩
  obtain rfl := List.inj_on_of_nodup_map distinct hc ht same
  simp [without] at some

namespace Log

def Unwritten (h : Handle) (log : Log) : Prop := ∀ e ∈ log, ¬ e.Enables h

/-- Some write that switches a notification on could not be issued. -/
def Denied (h : Handle) (log : Log) : Prop :=
  ∃ d, .asked (.writeDescriptor h d enableIndication) false ∈ log

/-- All writes were issued, and one for an identifier has been answered since. -/
def Answered (h : Handle) (u : Uuid) (writes late : Log) : Prop :=
  .told (.descriptorWritten h u enableIndication true) ∈ late ∧ ¬ writes.Denied h

/-- The targets are being switched on: some of them by the steps that are left, and of the others
some are still waited for. What could not be switched on is still to be noticed. -/
inductive Enabling (h : Handle) (targets : List Characteristic) (pending : UuidSet) (steps : List Step)
    (events : List PeerEvent) : Log → Prop where
  | intro {done todo : List Characteristic} {early writes late : Log} (split : targets = done ++ todo)
      (left : steps = todo.map fun c => .run (.subscribe c) (some h)) (switched : SwitchedOn h done writes)
      (before : early.Unwritten h) (after : late.Unwritten h) (begun : todo ≠ [] → late = [])
      (waited : ∀ t ∈ targets, t.uuid ∈ pending ∨ BareAmong targets t.uuid ∨ Answered h t.uuid writes late)
      (bare : ∀ u, .enabled u ∈ events → BareAmong targets u)
      (noticed : writes.Denied h → ∃ u, .enableFailed u ∈ events) :
      Enabling h targets pending steps events (early ++ writes ++ late)

inductive Enabled (h : Handle) (targets : List Characteristic) : Log → Prop where
  | intro {early writes late : Log} (switched : SwitchedOn h targets writes) (before : early.Unwritten h)
      (after : late.Unwritten h)
      (confirmed : ∀ t ∈ targets, BareAmong targets t.uuid ∨ Answered h t.uuid writes late) :
      Enabled h targets (early ++ writes ++ late)

section

variable {h : Handle} {log more : Log}

theorem Unwritten.append (first : log.Unwritten h) (rest : more.Unwritten h) :
    Unwritten h (log ++ more) :=
  List.forall_mem_append.2 ⟨first, rest⟩

theorem unwritten_nil : Unwritten h [] := fun _ he => nomatch he

theorem unwritten_told (event : RadioEvent) : Unwritten h [.told event] := by
  rintro e he ⟨d, answer, rfl⟩
  simp at he

theorem not_denied_nil : ¬ Denied h [] := fun ⟨_, mem⟩ => nomatch mem

theorem denied_append : Denied h (log ++ more) ↔ log.Denied h ∨ more.Denied h := by
  simp only [Denied, List.mem_append, exists_or]

end

end Log

theorem Exchange.AboutScan.not_enables {e : Exchange} (about : e.AboutScan) (h : Handle) : ¬ e.Enables h := by
  rintro ⟨d, answer, rfl⟩
  obtain ⟨request, answer', same, free⟩ := about
  cases same
  cases free

theorem Exchange.Apart.not_enables {e : Exchange} (apart : e.Apart) (h : Handle) : ¬ e.Enables h := by
  rintro ⟨d, answer, rfl⟩
  cases apart

theorem Dials.unwritten {a : Address} {log : Log} {answer : Option Handle} (dials : Dials a log answer)
    (h : Handle) : log.Unwritten h := by
  induction dials with
  | exhausted => exact Log.unwritten_nil
  | accepted =>
    rintro e he ⟨d, answer, rfl⟩
    simp at he
  | refused route rest ih =>
    rintro e he ⟨d, answer, rfl⟩
    rcases List.mem_cons.1 he with same | he
    · cases same
    · exact ih _ he ⟨d, answer, rfl⟩

/-- Only the steps that are there for it switch notifications on. -/
theorem Carried.unwritten {step : Step} {log : Log} {event : Option PeerEvent} {h : Handle}
    (carried : Carried step log event) (other : ∀ c, step ≠ .run (.subscribe c) (some h)) :
    log.Unwritten h := by
  rintro e he ⟨d, answer, rfl⟩
  cases carried with
  | scan _ about => exact (about _ he).not_enables h ⟨d, answer, rfl⟩
  | @subscribed k c _ _ switched =>
    have same : k = h := by cases switched <;> simp_all
    exact other c (same ▸ rfl)
  | unsubscribed switched =>
    cases switched <;> simp [Subscription.value, enableIndication, disableNotification] at he
  | asked asks => cases asks <;> simp at he
  | released | queued | unqueued | silent | unlinked => simp at he

section Switching

variable {h : Handle} {c : Characteristic} {targets : List Characteristic} {pending : UuidSet}
  {steps : List Step} {events : List PeerEvent} {log more : Log} {event : Option PeerEvent}

/-- Switching a characteristic on is denied only if it has a descriptor, and this is told at once. -/
theorem Switched.of_denied (switched : Switched h c true more event) (denied : more.Denied h) :
    c.clientConfiguration?.isSome ∧ event = some (.enableFailed c.uuid) := by
  obtain ⟨d, mem⟩ := denied
  cases switched with
  | bare => simp at mem
  | written target => simp at mem
  | refused target => simp [target]

/-- What is confirmed at once has no descriptor. -/
theorem Switched.of_enabled {u : Uuid} (switched : Switched h c true more (some (.enabled u))) :
    c.uuid = u ∧ c.clientConfiguration? = none := by
  generalize due : some (PeerEvent.enabled u) = event at switched
  cases switched with
  | bare without =>
    cases due
    exact ⟨rfl, without⟩
  | written => cases due
  | refused => cases due

theorem SwitchedOn.of_denied (switched : SwitchedOn h targets log) (denied : log.Denied h) :
    ∃ t ∈ targets, t.clientConfiguration?.isSome := by
  induction switched with
  | none => exact absurd denied Log.not_denied_nil
  | next earlier last ih =>
    rcases Log.denied_append.1 denied with old | new
    · obtain ⟨t, ht, some⟩ := ih old
      exact ⟨t, List.mem_append_left _ ht, some⟩
    · exact ⟨_, List.mem_append_right _ (List.mem_singleton.2 rfl), (last.of_denied new).1⟩

namespace Log

/-- Once the services are found, every target is to be switched on and is waited for. -/
theorem Unwritten.enabling (before : log.Unwritten h) (waited : ∀ t ∈ targets, t.uuid ∈ pending) :
    log.Enabling h targets pending (targets.map fun c => .run (.subscribe c) (some h)) [] := by
  have start : Enabling h targets pending (targets.map fun c => .run (.subscribe c) (some h)) []
      (log ++ [] ++ []) :=
    .intro (List.nil_append targets).symm rfl .none before unwritten_nil (fun _ => rfl)
      (fun t ht => Or.inl (waited t ht)) (by simp) (fun denied => absurd denied not_denied_nil)
  simpa using start

namespace Enabling

/-- While targets are being switched on, no other step is left. -/
theorem subscribes {step : Step} (enabling : log.Enabling h targets pending (step :: steps) events) :
    ∃ c, step = .run (.subscribe c) (some h) := by
  cases enabling with
  | @intro done todo early writes late split left =>
    cases todo with
    | nil => cases left
    | cons c rest => exact ⟨c, (List.cons.inj left).1⟩

/-- One more target is switched on. -/
theorem switch
    (enabling : log.Enabling h targets pending (.run (.subscribe c) (some h) :: steps) events)
    (last : Switched h c true more event) :
    Enabling h targets pending steps (events ++ event.toList) (log ++ more) := by
  cases enabling with
  | @intro done todo early writes late split left switched before after begun waited bare noticed =>
    obtain ⟨rest, rfl, rfl⟩ : ∃ rest, todo = c :: rest ∧
        steps = rest.map fun c => .run (.subscribe c) (some h) := by
      cases todo with
      | nil => cases left
      | cons c' rest =>
        obtain ⟨first, rfl⟩ := List.cons.inj left
        obtain rfl : c = c' := by simpa using first
        exact ⟨rest, rfl, rfl⟩
    obtain rfl := begun (by simp)
    have onward : targets = (done ++ [c]) ++ rest := by simp [split]
    have next : Enabling h targets pending (rest.map fun c => .run (.subscribe c) (some h))
        (events ++ event.toList) (early ++ (writes ++ more) ++ []) := by
      refine .intro onward rfl (switched.next last) before after (fun _ => rfl) (fun t ht => ?_)
        (fun u mem => ?_) fun denied => ?_
      · exact (waited t ht).imp_right fun known => Or.inl (known.resolve_right fun told => nomatch told.1)
      · rcases List.mem_append.1 mem with old | new
        · exact bare u old
        · obtain rfl : event = some (.enabled u) := by simpa using new
          obtain ⟨same, without⟩ := last.of_enabled
          exact ⟨c, by simp [split], same, without⟩
      · rcases denied_append.1 denied with old | new
        · obtain ⟨u, mem⟩ := noticed old
          exact ⟨u, List.mem_append_left _ mem⟩
        · obtain ⟨-, rfl⟩ := last.of_denied new
          exact ⟨c.uuid, by simp⟩
    simpa using next

theorem append (enabling : log.Enabling h targets pending [] events) (rest : more.Unwritten h) :
    Enabling h targets pending [] events (log ++ more) := by
  cases enabling with
  | @intro done todo early writes late split left switched before after begun waited bare noticed =>
    have next : Enabling h targets pending [] events (early ++ writes ++ (late ++ more)) := by
      obtain rfl : todo = [] := by simpa using left.symm
      refine .intro split rfl switched before (after.append rest) (fun some => absurd rfl some)
        (fun t ht => ?_) bare noticed
      exact (waited t ht).imp_right (Or.imp_right fun told => ⟨List.mem_append_left _ told.1, told.2⟩)
    simpa using next

/-- The radio tells of a write that went well. -/
theorem tell (enabling : log.Enabling h targets pending [] []) (u : Uuid) :
    Enabling h targets (pending.erase u) [] []
      (log ++ [.told (.descriptorWritten h u enableIndication true)]) := by
  cases enabling with
  | @intro done todo early writes late split left switched before after begun waited bare noticed =>
    have issued : ¬ writes.Denied h := fun denied => by
      obtain ⟨u, mem⟩ := noticed denied
      cases mem
    have next : Enabling h targets (pending.erase u) [] []
        (early ++ writes ++ (late ++ [.told (.descriptorWritten h u enableIndication true)])) := by
      obtain rfl : todo = [] := by simpa using left.symm
      refine .intro split rfl switched before (after.append (unwritten_told _)) (fun some => absurd rfl some)
        (fun t ht => ?_) bare noticed
      by_cases same : t.uuid = u
      · exact Or.inr (Or.inr ⟨by simp [same], issued⟩)
      · rcases waited t ht with pending | known | told
        · exact Or.inl (UuidSet.mem_erase.2 ⟨pending, same⟩)
        · exact Or.inr (Or.inl known)
        · exact Or.inr (Or.inr ⟨List.mem_append_left _ told.1, told.2⟩)
    simpa using next

/-- A target without a descriptor confirms its identifier. -/
theorem follow {u : Uuid} (enabling : log.Enabling h targets pending steps (.enabled u :: events)) :
    log.Enabling h targets (pending.erase u) steps events := by
  cases enabling with
  | @intro done todo early writes late split left switched before after begun waited bare noticed =>
    refine .intro split left switched before after begun (fun t ht => ?_)
      (fun v mem => bare v (List.mem_cons_of_mem _ mem)) fun denied => ?_
    · by_cases same : t.uuid = u
      · exact Or.inr (Or.inl (same ▸ bare u List.mem_cons_self))
      · exact (waited t ht).imp_left fun pending => UuidSet.mem_erase.2 ⟨pending, same⟩
    · obtain ⟨v, mem⟩ := noticed denied
      exact ⟨v, by simpa using mem⟩

theorem drop {e : PeerEvent} (enabling : log.Enabling h targets pending steps (e :: events))
    (other : ∀ u, e ≠ .enableFailed u) : log.Enabling h targets pending steps events := by
  cases enabling with
  | @intro done todo early writes late split left switched before after begun waited bare noticed =>
    refine .intro split left switched before after begun waited
      (fun v mem => bare v (List.mem_cons_of_mem _ mem)) fun denied => ?_
    obtain ⟨v, mem⟩ := noticed denied
    exact ⟨v, (List.mem_cons.1 mem).resolve_left (Ne.symm (other v))⟩

/-- When nothing is waited for any more, everything is confirmed. -/
theorem enabled (enabling : log.Enabling h targets pending [] events) (last : pending.isEmpty = true) :
    log.Enabled h targets := by
  cases enabling with
  | @intro done todo early writes late split left switched before after begun waited bare noticed =>
    obtain rfl : todo = [] := by simpa using left.symm
    obtain rfl : targets = done := by simpa using split
    exact .intro switched before after fun t ht =>
      (waited t ht).resolve_left (UuidSet.isEmpty_iff.1 last t.uuid)

end Enabling

theorem Enabled.append (enabled : log.Enabled h targets) (rest : more.Unwritten h) :
    Enabled h targets (log ++ more) := by
  cases enabled with
  | @intro early writes late switched before after confirmed =>
    have next : Enabled h targets (early ++ writes ++ (late ++ more)) :=
      .intro switched before (after.append rest) fun t ht => (confirmed t ht).imp_right fun told =>
        ⟨List.mem_append_left _ told.1, told.2⟩
    simpa using next

theorem Enabled.split (enabled : log.Enabled h targets) :
    ∃ early writes late, log = early ++ writes ++ late ∧ SwitchedOn h targets writes ∧ early.Unwritten h ∧
      late.Unwritten h ∧ ∀ t ∈ targets, BareAmong targets t.uuid ∨ Answered h t.uuid writes late := by
  cases enabled with
  | @intro early writes late switched before after confirmed =>
    exact ⟨early, writes, late, rfl, switched, before, after, confirmed⟩

/-- Without targets there is nothing to switch on. -/
theorem Unwritten.enabled (before : log.Unwritten h) : log.Enabled h [] := by
  have all : Enabled h [] (log ++ [] ++ []) := .intro .none before unwritten_nil (by simp)
  simpa using all

end Log

end Switching

def PeerEvent.confirms (pending : UuidSet) : PeerEvent → UuidSet
  | .enabled u => pending.erase u
  | _ => pending

namespace Peer

structure Notified (h : Handle) (steps : List Step) (events : List PeerEvent) (log : Log) (p : Peer) :
    Prop where
  before : p.phase.rank ≤ Phase.discovering.rank → log.Unwritten h
  during : p.phase = .subscribing → log.Enabling h p.notifyTargets p.pendingEnable steps events
  after : p.phase = .negotiating ∨ p.phase = .ready → log.Enabled h p.notifyTargets

/-- The same when an event comes, with what it confirms; a failure to switch a notification on is
the end of it. -/
structure Granted (h : Handle) (event : PeerEvent) (events : List PeerEvent) (log : Log) (p : Peer) :
    Prop where
  before : p.phase.rank ≤ Phase.discovering.rank → log.Unwritten h
  during : p.phase = .subscribing → (∃ u, event = .enableFailed u) ∨
    log.Enabling h p.notifyTargets (event.confirms p.pendingEnable) [] events
  after : p.phase = .negotiating ∨ p.phase = .ready → log.Enabled h p.notifyTargets

section

variable {h : Handle} {log more : Log} {policy : LinkPolicy} {p q : Peer} {event : PeerEvent}
  {events : List PeerEvent} {actions : List Action}

theorem Notified.append (notified : p.Notified h [] events log) (rest : more.Unwritten h) :
    p.Notified h [] events (log ++ more) where
  before early := (notified.before early).append rest
  during phase := (notified.during phase).append rest
  after late := (notified.after late).append rest

/-- The next of the events that have been called for. -/
theorem Notified.granted (notified : p.Notified h [] (event :: events) log) :
    p.Granted h event events log where
  before := notified.before
  during phase := by
    have enabling := notified.during phase
    cases event with
    | enabled u => exact Or.inr enabling.follow
    | enableFailed u => exact Or.inl ⟨u, rfl⟩
    | connectRequested | connectFailed | linkUp | linkDown | discoveryRefused | servicesDiscovered
    | negotiationUnavailable | unitSizeReported | disableSettled | disableRefused | disconnectRequested =>
      exact Or.inr (enabling.drop (by simp))
  after := notified.after

/-- An event that confirms nothing may come at any time. -/
theorem Notified.unconfirmed (notified : p.Notified h [] events log) (other : ∀ u, event ≠ .enabled u) :
    p.Granted h event events log where
  before := notified.before
  during phase := by
    have enabling := notified.during phase
    cases event with
    | enabled u => exact absurd rfl (other u)
    | _ => exact Or.inr enabling
  after := notified.after

/-- The phase in which a confirmation or a failure matters has a place for it. -/
theorem Granted.ignored (granted : p.Granted h event events log) (refused : p.react policy event = .refused p) :
    p.Notified h [] events log where
  before := granted.before
  during phase := by
    rcases granted.during phase with ⟨u, rfl⟩ | enabling
    · simp [react, Peer.during, phase] at refused
    · cases event with
      | enabled u => simp [react, Peer.during, phase] at refused
      | _ => exact enabling
  after := granted.after

theorem Subscribed.enabled (done : p.Subscribed policy event q) (granted : p.Granted h event events log) :
    log.Enabled h q.notifyTargets := by
  cases done with
  | nothingWanted phase some none =>
    have bare := granted.before (by simp [phase])
    simpa [Peer.found, none] using bare.enabled
  | lastEnabled phase pending last =>
    have enabling := (granted.during phase).resolve_left (by simp)
    exact enabling.enabled last

/-- Notifications are switched on right when the services are found, and waited for before anything
else is done. -/
theorem Proceeds.notified (moved : p.Proceeds policy event q actions) (granted : p.Granted h event events log)
    (holds : p.handle = some h) (first : event.isFollowUp = false → events = []) :
    q.Notified h (actions.map (.run · p.handle)) events log := by
  have away : ∀ {q : Peer} {steps : List Step}, q.phase = .disconnecting → q.Notified h steps events log :=
    fun phase => ⟨by simp [phase, Phase.rank], by simp [phase], by simp [phase]⟩
  cases moved with
  | request phase | linkUp phase =>
    have bare := granted.before (by simp [phase, Phase.rank])
    exact ⟨fun _ => bare, by simp, by simp⟩
  | @subscribe cs phase targets =>
    obtain rfl := first rfl
    refine ⟨by simp [subscribing, Phase.rank], fun _ => ?_, by simp [subscribing]⟩
    have bare := granted.before (by simp [phase])
    have steps : ((wanted policy cs).map Action.subscribe).map (Step.run · p.handle) =
        (wanted policy cs).map fun c => .run (.subscribe c) (some h) := by
      simp [holds, List.map_map, Function.comp_def]
    rw [steps]
    refine bare.enabling fun t ht => ?_
    simp only [subscribing, found, UuidSet.mem_insertAll]
    exact Or.inl (List.mem_map_of_mem ht)
  | reject phase => exact away rfl
  | negotiate done => exact ⟨by simp [Phase.rank], by simp, fun _ => done.enabled granted⟩
  | ready done => exact ⟨by simp [Phase.rank], by simp, fun _ => done.enabled granted⟩
  | negotiated phase | unnegotiated phase =>
    exact ⟨by simp [Phase.rank], by simp, fun _ => granted.after (Or.inl phase)⟩
  | leave => exact away rfl
  | note phase => exact ⟨granted.before, fun now => (granted.during now).resolve_left (by simp), granted.after⟩
  | enabled phase =>
    exact ⟨by simp [phase, Phase.rank], fun now => (granted.during now).resolve_left (by simp), by simp [phase]⟩
  | settled phase => exact away phase
  | late phase => exact away phase

/-- Notifications are switched on only when the services are found. -/
theorem Proceeds.subscribes {c : Characteristic} (moved : p.Proceeds policy event q actions)
    (asked : .subscribe c ∈ actions) :
    p.phase = .discovering ∧ q.phase = .subscribing ∧ event.isFollowUp = false ∧ event ≠ .disconnectRequested := by
  cases moved with
  | subscribe phase => exact ⟨phase, rfl, rfl, by simp⟩
  | _ => simp [leavingActions] at asked

theorem Ends.unsubscribed {before : List Action} (ended : p.Ends event before) (c : Characteristic) :
    .subscribe c ∉ before := by
  cases ended <;> simp [leavingActions]

end

end Peer

namespace World

/-- Every peer that the index leads to has been notified as far as its phase says. -/
def Listens (w : World (Recorded σ)) : Prop :=
  ∀ h a p, w.central.registry.addressFor? h = some a → w.central.registry.get? a = some p →
    p.Notified h [] [] (w.radio.log.since h)

def Notifies (a : Address) (w : World (Recorded σ)) : Prop :=
  ∃ p h, w.central.registry.get? a = some p ∧ p.handle = some h ∧ w.radio.log.Dialed a h ∧
    (w.radio.log.since h).Enabled h p.notifyTargets

structure Notifying (service : Uuid) (a : Address) (steps : List Step) (events : List PeerEvent)
    (w : World (Recorded σ)) : Prop where
  preparing : w.Preparing service a steps events
  subscribing : ∀ c handle, .run (.subscribe c) handle ∈ steps →
    (∃ h, handle = some h ∧ w.central.registry.addressFor? h = some a) ∧
      ∀ p, w.central.registry.get? a = some p → p.phase = .subscribing
  own : ∀ h p, w.central.registry.addressFor? h = some a → w.central.registry.get? a = some p →
    p.Notified h steps events (w.radio.log.since h)
  others : ∀ h b p, b ≠ a → w.central.registry.addressFor? h = some b →
    w.central.registry.get? b = some p → p.Notified h [] [] (w.radio.log.since h)

section

variable {service : Uuid} {a : Address} {steps : List Step} {events : List PeerEvent}
  {w v : World (Recorded σ)}

theorem Notifying.listens (h : w.Notifying service a [] []) : w.Listens := by
  intro k b p known here
  by_cases same : b = a
  · subst same
    exact h.own k p known here
  · exact h.others k b p same known here

theorem Listens.congr {more : Log} (listens : w.Listens)
    (registry : v.central.registry = w.central.registry) (grown : v.radio.log = w.radio.log ++ more)
    (unissued : ∀ e ∈ more, e.issued? = none) (unwritten : ∀ h, more.Unwritten h) : v.Listens := by
  intro h a p known here
  rw [registry] at known here
  rw [grown, Log.since_append fun e he => by simp [unissued e he]]
  exact (listens h a p known here).append (unwritten h)

theorem Notifying.execute {step : Step} (h : w.Notifying service a (step :: steps) events) (R : Radio σ) :
    (w.execute R.recorded a step).2.Notifying service a steps
      (events ++ (w.execute R.recorded a step).1.toList) := by
  have preparing := h.preparing.execute R
  have registry := registry_execute R.recorded a step w
  obtain ⟨more, grown, carried⟩ := carried_execute R a step w
  generalize (w.execute R.recorded a step).2 = v at preparing registry grown ⊢
  generalize (w.execute R.recorded a step).1 = event at preparing carried ⊢
  have since : ∀ k, v.radio.log.since k = w.radio.log.since k ++ more := fun k => by
    rw [grown, Log.since_append fun e he => by simp [carried.unissued e he]]
  have unwritten : ∀ k, (∀ c, step = .run (.subscribe c) (some k) → w.central.registry.addressFor? k ≠ some a) →
      more.Unwritten k := fun k other => carried.unwritten fun c same => by
    obtain ⟨⟨j, given, known⟩, -⟩ := h.subscribing c (some k) (same ▸ List.mem_cons_self)
    obtain rfl := Option.some.inj given
    exact other c same known
  constructor
  case preparing => exact preparing
  case subscribing =>
    rw [registry]
    exact fun c handle mem => h.subscribing c handle (List.mem_cons_of_mem _ mem)
  case own =>
    intro k p known here
    rw [registry] at known here
    have now := h.own k p known here
    rw [since]
    by_cases asks : ∃ c handle, step = .run (.subscribe c) handle
    · obtain ⟨c, handle, rfl⟩ := asks
      obtain ⟨⟨j, rfl, leads⟩, phase⟩ := h.subscribing c handle List.mem_cons_self
      obtain rfl := handle_unique h.preparing.orderly leads known
      have phase := phase p here
      have switched : Switched j c true more event := by
        cases carried with
        | subscribed switched => exact switched
        | scan what => simp at what
        | asked asks => cases asks
        | silent what => simp at what
      exact ⟨by simp [phase, Phase.rank], fun _ => (now.during phase).switch switched, by simp [phase]⟩
    · have quiet := unwritten k fun c same => absurd ⟨c, _, same⟩ asks
      refine ⟨fun early => (now.before early).append quiet, fun phase => ?_,
        fun late => (now.after late).append quiet⟩
      obtain ⟨c, same⟩ := (now.during phase).subscribes
      exact absurd ⟨c, _, same⟩ asks
  case others =>
    intro k b p other known here
    rw [registry] at known here
    rw [since]
    refine (h.others k b p other known here).append (unwritten k fun _ _ leads => ?_)
    exact other (Option.some.inj (known.symm.trans leads))

section Moving

variable {policy : LinkPolicy} {event : PeerEvent} {p q : Peer} {actions : List Action} {before : List Action}

theorem Notifying.advance (listens : ∀ h b p, b ≠ a → w.central.registry.addressFor? h = some b →
      w.central.registry.get? b = some p → p.Notified h [] [] (w.radio.log.since h))
    (orderly : w.central.registry.Orderly) (stands : w.Stands service)
    (followUps : ∀ e ∈ events, e.isFollowUp = true) (givesUp : w.GivesUp a events)
    (fits : w.Fits service a event) (first : event.isFollowUp = false → events = [])
    (granted : ∀ h p, w.central.registry.addressFor? h = some a → w.central.registry.get? a = some p →
      p.Granted h event events (w.radio.log.since h)) (R : Radio σ) :
    (w.transition R.recorded a event).2.Notifying service a (w.transition R.recorded a event).1 events := by
  have preparing := Preparing.advance orderly stands followUps givesUp fits R
  have spec := w.central.registry.advance_spec (w.policy R.recorded) a event
  show World.Notifying service a (w.central.registry.advance (w.policy R.recorded) a event).1 events
    (w.withRegistry (w.central.registry.advance (w.policy R.recorded) a event).2)
  change World.Preparing service a (w.central.registry.advance (w.policy R.recorded) a event).1 events
    (w.withRegistry (w.central.registry.advance (w.policy R.recorded) a event).2) at preparing
  generalize (w.central.registry.advance (w.policy R.recorded) a event).1 = steps at spec preparing ⊢
  generalize (w.central.registry.advance (w.policy R.recorded) a event).2 = after at spec preparing ⊢
  cases spec with
  | ignored why =>
    exact ⟨preparing, by simp, fun h p known here => (granted h p known here).ignored (why p here), listens⟩
  | @kept p q actions here moved =>
    have index : ∀ h, (w.central.registry.putBack a q).addressFor? h = w.central.registry.addressFor? h :=
      fun h => by simp [Registry.addressFor?]
    have view := Registry.get?_putBack here moved
    constructor
    case preparing => exact preparing
    case subscribing =>
      intro c handle mem
      obtain ⟨action, asked, same⟩ := List.mem_map.1 mem
      cases same
      obtain ⟨phase, subscribing, early, unasked⟩ := moved.subscribes asked
      obtain ⟨h, holds⟩ := Option.isSome_iff_exists.1
        ((orderly.live a p here).holding (by simp [phase]))
      refine ⟨⟨h, holds, (index h).trans ?_⟩, fun s there => ?_⟩
      · rcases fits.guarded p h here holds with known | ⟨-, -, late⟩ | asked
        · exact known
        · rw [early] at late
          cases late
        · exact absurd asked unasked
      · rw [show (w.withRegistry (w.central.registry.putBack a q)).central.registry.get? a = _ from view a,
          if_pos rfl] at there
        exact Option.some.inj there ▸ subscribing
    case own =>
      intro h s known there
      rw [show (w.withRegistry (w.central.registry.putBack a q)).central.registry.get? a = _ from view a,
        if_pos rfl] at there
      obtain rfl := Option.some.inj there
      replace known := (index h).symm.trans known
      obtain ⟨p', here', holds⟩ := orderly.indexed h a known
      obtain rfl : p = p' := Option.some.inj (here.symm.trans here')
      exact moved.notified (granted h p known here) holds first
    case others =>
      intro h b s other known there
      rw [show (w.withRegistry (w.central.registry.putBack a q)).central.registry.get? b = _ from view b,
        if_neg other] at there
      exact listens h b s other ((index h).symm.trans known) there
  | @ended p before here ended =>
    have gone : ∀ s, (w.withRegistry (w.central.registry.remove a).2).central.registry.get? a ≠ some s :=
      fun s there => by simp [withRegistry, Registry.get?_remove_self] at there
    constructor
    case preparing => exact preparing
    case subscribing =>
      intro c handle mem
      have none := ended.unsubscribed c
      simp [none] at mem
    case own => exact fun h s _ there => absurd there (gone s)
    case others =>
      intro h b s other known there
      simp only [withRegistry] at known there
      rw [Registry.get?_remove_ne other] at there
      rw [Registry.addressFor?_remove here] at known
      split at known
      · cases known
      · exact listens h b s other known there

end Moving

theorem Notifying.notifies {p : Peer} (h : w.Notifying service a steps events)
    (here : w.central.registry.get? a = some p) (ready : p.phase = .ready) : w.Notifies a := by
  have linked := (h.preparing.orderly.live a p here).holding (by simp [ready])
  obtain ⟨k, holds⟩ := Option.isSome_iff_exists.1 linked
  have known := (h.preparing.guarded p k here holds).resolve_right fun away => away.2 ready
  exact ⟨p, k, here, holds, (h.preparing.stands k a p known here).1, (h.own k p known here).after (Or.inr ready)⟩

def Attentive (w v : World (Recorded σ)) : Prop :=
  ∀ a size, (⟨w, v⟩ : Change (Recorded σ)).GetsReady a size → v.Notifies a

theorem attentive_of_registry (same : v.central.registry = w.central.registry) : Attentive w v :=
  fun _ _ ready => absurd ready (Change.not_getsReady (by rw [same]))

theorem Notifying.attentive {event : PeerEvent} {R : Radio σ}
    (h : (w.transition R.recorded a event).2.Notifying service a steps events) :
    Attentive w (w.transition R.recorded a event).2 := by
  intro b size ready
  by_cases same : b = a
  · subst same
    obtain ⟨-, p, there, phase, -⟩ := ready
    exact h.notifies there phase
  · exact absurd ready (Change.not_getsReady (Registry.get?_advance_ne same))

theorem attentive_settling (h : w.Notifying service a steps events) (R : Radio σ) :
    (∀ c ∈ w.settling R.recorded a steps events, Attentive c.before c.after) ∧
      (w.settle R.recorded a steps events).Notifying service a [] [] := by
  refine settling_induction (I := fun steps events v => v.Notifying service a steps events) ?_ ?_ h
  · intro step steps events v now
    exact ⟨attentive_of_registry (registry_execute R.recorded a step v), now.execute R⟩
  · intro event events v now
    have before := now.preparing
    have later : ∀ e ∈ events, e.isFollowUp = true := fun e he => before.followUps e (List.mem_cons_of_mem _ he)
    have givesUp : v.GivesUp a events := fun up => before.givesUp (List.mem_cons_of_mem _ up)
    have first : event.isFollowUp = false → events = [] := fun other => by
      rw [before.followUps event List.mem_cons_self] at other
      cases other
    have next := Notifying.advance now.others before.orderly before.stands later givesUp before.fits first
      (fun k p known here => (now.own k p known here).granted) R
    exact ⟨next.attentive, next⟩

structure Heeding (service : Uuid) (w : World (Recorded σ)) : Prop where
  standing : w.Standing service
  listens : w.Listens

theorem Heeding.congr {more : Log} (h : w.Heeding service)
    (registry : v.central.registry = w.central.registry) (grown : v.radio.log = w.radio.log ++ more)
    (neutral : ∀ e ∈ more, e.Neutral) (unwritten : ∀ k, more.Unwritten k) : v.Heeding service where
  standing := h.standing.congr registry grown neutral
  listens := h.listens.congr registry grown (fun e he => (neutral e he).1) unwritten

theorem attentive_drive {event : PeerEvent} (h : w.Heeding service) (fits : w.Fits service a event)
    (granted : ∀ k p, w.central.registry.addressFor? k = some a → w.central.registry.get? a = some p →
      p.Granted k event [] (w.radio.log.since k)) (R : Radio σ) :
    (∀ c ∈ w.settling R.recorded a [] [event], Attentive c.before c.after) ∧
      (w.drive R.recorded a event).Heeding service := by
  have none : w.GivesUp a [] := fun up => by cases up
  have first := Notifying.advance (fun k b p _ known here => h.listens k b p known here)
    h.standing.orderly h.standing.stands (by simp) none fits (fun _ => rfl) granted R
  obtain ⟨attentive, last⟩ := attentive_settling first R
  rw [settling_drive, drive_eq]
  exact ⟨List.forall_mem_cons.2 ⟨first.attentive, attentive⟩,
    ⟨last.preparing.orderly, last.preparing.stands⟩, last.listens⟩

theorem granted_of_heeding (h : w.Heeding service) {event : PeerEvent} (other : ∀ u, event ≠ .enabled u) :
    ∀ k p, w.central.registry.addressFor? k = some a → w.central.registry.get? a = some p →
      p.Granted k event [] (w.radio.log.since k) :=
  fun k p known here => (h.listens k a p known here).unconfirmed other

/-- What the radio tells about a write is in the record when it is confirmed. -/
theorem Reaches.granted {event : RadioEvent} {told : PeerEvent} (reaches : w.Reaches event a told)
    (h : w.Heeding service) :
    ∀ k p, w.central.registry.addressFor? k = some a → w.central.registry.get? a = some p →
      p.Granted k told [] ((w.hear (some event)).radio.log.since k) := by
  intro k p known here
  obtain ⟨j, means, leads⟩ := reaches
  obtain rfl := handle_unique h.standing.orderly leads known
  have now := h.listens j a p known here
  have grown : (w.hear (some event)).radio.log.since j = w.radio.log.since j ++ [.told event] :=
    Log.since_append (by simp [Exchange.issued?])
  have heard := now.append (Log.unwritten_told event)
  rw [grown]
  by_cases confirms : ∃ u, told = .enabled u
  · obtain ⟨u, rfl⟩ := confirms
    obtain rfl : event = .descriptorWritten j u enableIndication true := by
      cases event with
      | descriptorWritten k c value success =>
        simp only [RadioEvent.peerEvent?, Option.map_eq_some_iff] at means
        obtain ⟨result, means, same⟩ := means
        obtain ⟨rfl, rfl⟩ := Prod.mk.inj same
        unfold Subscription.resultEvent? at means
        split at means
        · split at means <;> simp_all
        · split at means <;> cases means
      | connected | disconnected | servicesDiscovered | unitSizeChanged | advertisement
      | characteristicChanged | characteristicWritten => simp [RadioEvent.peerEvent?] at means
    exact ⟨heard.before, fun phase => Or.inr ((now.during phase).tell u), heard.after⟩
  · exact heard.unconfirmed fun u same => confirms ⟨u, same⟩

theorem attentive_sendAway {duties : List Duty} (h : w.Heeding service) (R : Radio σ)
    (tells : ∀ d ∈ duties, d = .tell d.address .disconnectRequested) :
    (∀ c ∈ w.journey R.recorded duties, Attentive c.before c.after) ∧
      (w.runAll R.recorded duties).Heeding service := by
  refine journey_induction (P := fun v => v.Heeding service) (fun d hd v now => ?_) h
  rw [tells d hd]
  exact attentive_drive now (fits_disconnectRequested v) (granted_of_heeding now (by simp)) R

theorem attentive_tell {event : PeerEvent} (h : w.Heeding service) (fits : w.Fits service a event)
    (granted : ∀ k p, w.central.registry.addressFor? k = some a → w.central.registry.get? a = some p →
      p.Granted k event [] (w.radio.log.since k)) (R : Radio σ) :
    (∀ c ∈ w.journey R.recorded [.tell a event], Attentive c.before c.after) ∧
      (w.runAll R.recorded [.tell a event]).Heeding service := by
  rw [journey_single]
  exact attentive_drive h fits granted R

/-- A handle that is given out begins with nothing switched on. -/
theorem Listens.attach {p : Peer} {h : Handle} {more : Log} (listens : w.Listens)
    (here : w.central.registry.get? a = some p) (phase : p.phase = .connecting) (bare : p.handle = none)
    (registry : v.central.registry = (w.central.registry.attach a h).2)
    (grown : v.radio.log = w.radio.log ++ more) (dials : Dials a more (some h)) : v.Listens := by
  intro k b q known there
  rw [registry] at known there
  rcases Registry.indexed_attach here bare phase known there with
    ⟨rfl, rfl, rfl⟩ | ⟨same, known, q', there, kept⟩
  · rw [grown, dials.since]
    exact ⟨fun _ => Log.unwritten_nil, by simp [phase], by simp [phase]⟩
  · have heard := (listens k b q' known there).append (dials.unwritten k)
    rw [grown, Log.since_append (dials.unissued (by simpa using Ne.symm same))]
    rcases kept with rfl | rfl
    · exact heard
    · exact ⟨heard.before, heard.during, heard.after⟩

theorem attentive_admission {data : Bytes} (h : w.Heeding service) (admits : w.admits a data = true)
    (R : Radio σ) :
    let entered := (w.hear (some (.advertisement a data))).enter a
    (∀ c ∈ entered.journey R.recorded [.admission a], Attentive c.before c.after) ∧
      (entered.runAll R.recorded [.admission a]).Heeding service := by
  intro entered
  have unknown := unknown_of_admits admits
  have view := Registry.get?_enroll unknown
  have heard := h.listens.congr (v := w.hear (some (.advertisement a data))) rfl rfl
    (by simp [Exchange.issued?]) fun k => Log.unwritten_told _
  have stranger : ∀ k, w.central.registry.addressFor? k ≠ some a := fun k known => by
    obtain ⟨p, here, -⟩ := h.standing.orderly.indexed k a known
    rw [Registry.contains, here] at unknown
    cases unknown
  have begun : entered.Notifying service a [.run .pauseScanning none, .run .connect none] [] := by
    refine ⟨preparing_enter h.standing unknown, by simp, fun k p known => absurd known (stranger k),
      fun k b q other known there => ?_⟩
    rw [show entered.central.registry.get? b = _ from view b, if_neg other] at there
    exact heard k b q known there
  obtain ⟨attentive, last⟩ := attentive_settling begun R
  rw [journey_single]
  exact ⟨attentive, ⟨last.preparing.orderly, last.preparing.stands⟩, last.listens⟩

/-- In a happening peers get ready with every notification on, and what holds between operations holds
again at its end. -/
theorem attentive_happen (h : w.Heeding service) (settings : w.central.settings.service = service)
    (R : Radio σ) (x : Happening σ) :
    (∀ c ∈ w.changes R x, Attentive c.before c.after) ∧ (w.happen R x).Heeding service := by
  have opened := opened_opening R w x
  have first : Attentive w (w.opening R x).1 := fun a size ready =>
    absurd ready (opening_unready R w x a size)
  rw [happen_eq, changes]
  generalize (w.opening R x).1 = v at opened first ⊢
  generalize (w.opening R x).2 = duties at opened ⊢
  suffices rest : (∀ c ∈ v.journey R.recorded duties, Attentive c.before c.after) ∧
      (v.runAll R.recorded duties).Heeding service by
    exact ⟨List.forall_mem_cons.2 ⟨first, rest.1⟩, rest.2⟩
  have nothing : ∀ v : World (Recorded σ), v.Heeding service →
      (∀ c ∈ v.journey R.recorded [], Attentive c.before c.after) ∧
        (v.runAll R.recorded []).Heeding service := fun v now => ⟨by simp [journey], now⟩
  cases opened with
  | started =>
    obtain ⟨more, grown, about⟩ := log_scan (scans_start R) w
    exact nothing _ (h.congr rfl grown (fun e he => (about e he).neutral) fun k e he =>
      (about e he).not_enables k)
  | stopped =>
    obtain ⟨more, grown, about⟩ := log_scan (scans_stop R) w
    have stopped := h.congr (v := w.scan (Scanner.stop R.recorded)) rfl grown
      (fun e he => (about e he).neutral) fun k e he => (about e he).not_enables k
    exact attentive_sendAway stopped R Duty.sent_away
  | reset =>
    have gone := registry_reset R w
    refine nothing _ ⟨⟨?_, ?_⟩, ?_⟩
    · rw [gone]
      exact Registry.orderly_empty
    all_goals
      intro k b q known
      simp [gone, Registry.addressFor?] at known
  | sentAway b => exact attentive_tell h (fits_disconnectRequested w) (granted_of_heeding h (by simp)) R
  | @reached event b told reaches =>
    have heard := h.congr (v := w.hear (some event)) rfl rfl (hear_neutral event) fun k =>
      Log.unwritten_told event
    exact attentive_tell heard (reaches.fits h.standing settings) (reaches.granted h) R
  | admitted admits => exact attentive_admission h admits R
  | attached _ here phase bare registry _ _ grown dials =>
    exact nothing _ ⟨⟨registry ▸ h.standing.orderly.attach here bare phase,
      h.standing.stands.attach here phase bare registry grown dials⟩,
      h.listens.attach here phase bare registry grown dials⟩
  | @failed _ v b log _ waits registry _ _ grown dials =>
    have waiting : v.awaitsConnect b = true := (awaitsConnect_congr registry b).trans waits
    have told := h.congr registry grown dials.neutral dials.unwritten
    exact attentive_tell told (fits_connectFailed waiting) (granted_of_heeding told (by simp)) R
  | aside _ registry _ _ grown apart =>
    exact nothing _ (h.congr registry grown (fun e he => (apart e he).neutral) fun k e he =>
      (apart e he).not_enables k)

theorem heeding_outcome (R : Radio σ) (settings : Settings) (s : σ) (history : List (Happening σ)) :
    (outcome R settings s history).Heeding settings.service := by
  induction history using List.reverseRecOn with
  | nil => exact ⟨standing_outcome R settings s [], fun h a p known => by cases known⟩
  | append_singleton history x ih =>
    have service := congrArg (·.service) (settings_outcome R settings s history)
    rw [outcome_concat]
    exact (attentive_happen ih service R x).2

end

/-- Every enable is confirmed before a peer gets ready. Whenever a peer gets ready, the record since its
handle was given out holds a stretch in which its targets were switched on, and no other such write on
that handle. Each identifier wanted has since been confirmed by the radio, unless some target with it
has no descriptor; so if no two targets share an identifier, every write was issued and every one has
been answered by a success. -/
theorem enabled_before_ready (R : Radio σ) (settings : Settings) (s : σ) (history : List (Happening σ))
    (x : Happening σ) (a : Address) (size : Option UInt16) (c : Change (Recorded σ))
    (made : c ∈ (outcome R settings s history).changes R x) (ready : c.GetsReady a size) :
    ∃ p h early writes late, c.after.central.registry.get? a = some p ∧ p.handle = some h ∧
      c.after.radio.log.Dialed a h ∧ c.after.radio.log.since h = early ++ writes ++ late ∧
      SwitchedOn h p.notifyTargets writes ∧ Log.Unwritten h early ∧ Log.Unwritten h late ∧
      (∀ t ∈ p.notifyTargets, BareAmong p.notifyTargets t.uuid ∨ Log.Answered h t.uuid writes late) ∧
      ((p.notifyTargets.map (·.uuid)).Nodup → ¬ Log.Denied h writes ∧
        ∀ t ∈ p.notifyTargets, t.clientConfiguration?.isSome →
          .told (.descriptorWritten h t.uuid enableIndication true) ∈ late) := by
  have service := congrArg (·.service) (settings_outcome R settings s history)
  have attentive := (attentive_happen (heeding_outcome R settings s history) service R x).1 c made
  obtain ⟨p, h, here, holds, dialed, enabled⟩ := attentive a size ready
  obtain ⟨early, writes, late, split, switched, before, after, confirmed⟩ := enabled.split
  refine ⟨p, h, early, writes, late, here, holds, dialed, split, switched, before, after, confirmed,
    fun distinct => ?_⟩
  have answered : ∀ t ∈ p.notifyTargets, t.clientConfiguration?.isSome →
      Log.Answered h t.uuid writes late := fun t ht some =>
    (confirmed t ht).resolve_left (not_bareAmong distinct ht some)
  refine ⟨fun denied => ?_, fun t ht some => (answered t ht some).1⟩
  obtain ⟨t, ht, some⟩ := switched.of_denied denied
  exact (answered t ht some).2 denied

end World

namespace Encounter

def brief : Settings := { settings with negotiate := false }

def subscribing : World (Recorded SimulatedRadio) :=
  World.outcome SimulatedRadio.radio brief {} (history.take 5)

def confirmation : RadioEvent := .descriptorWritten ⟨1⟩ target.uuid enableIndication true

def confirmed : Change (Recorded SimulatedRadio) where
  before := subscribing.hear (some confirmation)
  after := ((subscribing.hear (some confirmation)).transition SimulatedRadio.radio.recorded ⟨"a"⟩
    (.enabled target.uuid)).2

def twins : Service := { service with characteristics := [target, target.withClientConfiguration] }

def twinned : List (Happening SimulatedRadio) :=
  history.take 4 ++ [.operation (.radioEvent (.servicesDiscovered ⟨1⟩ [twins]))]

end Encounter

namespace World

open Encounter

theorem confirmed_made :
    confirmed ∈ subscribing.changes SimulatedRadio.radio (.operation (.radioEvent confirmation)) := by
  have known : subscribing.central.registry.addressFor? ⟨1⟩ = some ⟨"a"⟩ := by cbv
  have opened : subscribing.opening SimulatedRadio.radio (.operation (.radioEvent confirmation)) =
      (subscribing.hear (some confirmation), [.tell ⟨"a"⟩ (.enabled target.uuid)]) := by
    simp [opening, Operation.event?, openStep, openEvent, RadioEvent.peerEvent?, Subscription.resultEvent?,
      hear, known, confirmation]
  rw [changes, opened, journey_single]
  refine List.mem_cons_of_mem _ ?_
  show confirmed ∈ settling SimulatedRadio.radio.recorded ⟨"a"⟩ [] [.enabled target.uuid] _
  rw [settling_drive]
  exact List.mem_cons_self

/-- The one write of the encounter is answered before its peer gets ready. -/
theorem enabled_before_ready_confirmed :
    confirmed.GetsReady ⟨"a"⟩ none ∧ ∃ h late, confirmed.after.radio.log.Dialed ⟨"a"⟩ h ∧
      late <:+ confirmed.after.radio.log.since h ∧
      .told (.descriptorWritten h target.uuid enableIndication true) ∈ late := by
  have unready : confirmed.before.central.registry.isReady ⟨"a"⟩ = false := by cbv
  have here : ∃ p, confirmed.after.central.registry.get? ⟨"a"⟩ = some p ∧ p.phase = .ready ∧
      p.unitSize = none ∧ p.notifyTargets = [target.withClientConfiguration] := ⟨_, by cbv, rfl, rfl, rfl⟩
  obtain ⟨p, here, phase, size, targets⟩ := here
  have ready : confirmed.GetsReady ⟨"a"⟩ none := ⟨unready, p, here, phase, size⟩
  obtain ⟨q, h, early, writes, late, there, -, dialed, split, -, -, -, -, all⟩ :=
    enabled_before_ready SimulatedRadio.radio brief {} (history.take 5)
      (.operation (.radioEvent confirmation)) ⟨"a"⟩ none confirmed confirmed_made ready
  obtain rfl : p = q := Option.some.inj (here.symm.trans there)
  have distinct : (p.notifyTargets.map (·.uuid)).Nodup := by simp [targets]
  obtain ⟨-, answered⟩ := all distinct
  have told := answered target.withClientConfiguration (by simp [targets]) (by decide)
  exact ⟨ready, h, late, dialed, ⟨early ++ writes, split.symm⟩, told⟩

def tellsWrite : Exchange → Bool
  | .told (.descriptorWritten ..) => true
  | .told _ | .dialed .. | .asked .. => false

/-- One of two targets with one identifier confirms both: the peer is ready, and nothing was ever told
of the only write. -/
theorem ready_unanswered :
    let w := outcome SimulatedRadio.radio brief {} twinned
    w.central.isConnectedTo ⟨"a"⟩ = true ∧
      (w.central.registry.get? ⟨"a"⟩).map (·.notifyTargets) = some [target, target.withClientConfiguration] ∧
      .asked (.writeDescriptor ⟨1⟩ ⟨Uuid.clientConfiguration, target.uuid⟩ enableIndication) true ∈ w.radio.log ∧
      ∀ u value success, .told (.descriptorWritten ⟨1⟩ u value success) ∉ w.radio.log := by
  have ready : (outcome SimulatedRadio.radio brief {} twinned).central.isConnectedTo ⟨"a"⟩ = true := by cbv
  have targets : ((outcome SimulatedRadio.radio brief {} twinned).central.registry.get? ⟨"a"⟩).map
      (·.notifyTargets) = some [target, target.withClientConfiguration] := by cbv
  have written : (outcome SimulatedRadio.radio brief {} twinned).radio.log.contains
      (.asked (.writeDescriptor ⟨1⟩ ⟨Uuid.clientConfiguration, target.uuid⟩ enableIndication) true) = true := by cbv
  have silent : (outcome SimulatedRadio.radio brief {} twinned).radio.log.any tellsWrite = false := by cbv
  refine ⟨ready, targets, by simpa using written, fun u value success mem => ?_⟩
  exact absurd rfl (List.any_eq_false.1 silent _ mem)

end World

end RadioCentral
