import RadioCentral.Proofs.CentralCoherence
import RadioCentral.Proofs.Conversation

/-!
On every connection the radio is asked for things in the order of a conversation, however the peers
of a run get in each other's way.
-/
namespace RadioCentral

open Registry (Step owed)

variable {σ : Type}

section

variable (size : UInt16) (found : List Characteristic → List Characteristic → Prop) (wiped : Prop)
  (h : Handle)

/-- The requests on a handle that has gone back: a whole conversation, or, where every peer was
forgotten at once, the beginning of one. -/
def Closed (log : Log) (said : List Request) : Prop :=
  ∃ all before, Conversation size found log h all ∧ (before = all ∨ (wiped ∧ before <+: all)) ∧
    said = before ++ [.release h]

/-- The requests made on a handle, together with those that steps still have to make, are what its
peer has come to ask for, or a whole conversation once the handle is with nobody any more. -/
structure Spoken (r : Registry) (log : Log) (steps : List Step) : Prop where
  holding : ∀ a p, r.get? a = some p → p.handle = some h → h ∈ log.issued ∧
    Asked size found log h p.phase p.notifyTargets (log.requestsOn h ++ owed h steps)
  gone : (∀ a p, r.get? a = some p → p.handle ≠ some h) → h ∈ log.issued →
    Closed size found wiped h log (log.requestsOn h ++ owed h steps)
  unissued : h ∉ log.issued → log.requestsOn h ++ owed h steps = []

end

variable {size : UInt16} {found : List Characteristic → List Characteristic → Prop} {wiped : Prop}
  {h : Handle} {r : Registry} {log more : Log} {steps : List Step}

theorem Closed.mono {said : List Request} {wiped' : Prop}
    {found' : List Characteristic → List Characteristic → Prop}
    (closed : Closed size found wiped h log said) (grown : log ⊆ more)
    (wider : ∀ cs targets, found cs targets → found' cs targets) (wipe : wiped → wiped') :
    Closed size found' wiped' h more said := by
  obtain ⟨all, before, conversation, whole, rfl⟩ := closed
  exact ⟨all, before, conversation.mono grown wider, whole.imp_right (And.imp_left wipe), rfl⟩

theorem spoken_empty : Spoken size found wiped h {} [] [] where
  holding a p here := by simp [Registry.get?] at here
  gone _ known := absurd known List.not_mem_nil
  unissued _ := rfl

namespace Spoken

theorem mono {wiped' : Prop} {found' : List Characteristic → List Characteristic → Prop}
    (spoken : Spoken size found wiped h r log steps)
    (wider : ∀ cs targets, found cs targets → found' cs targets) (wipe : wiped → wiped') :
    Spoken size found' wiped' h r log steps := by
  constructor
  case holding =>
    intro a p here holds
    obtain ⟨issued, asked⟩ := spoken.holding a p here holds
    exact ⟨issued, asked.mono (List.Subset.refl _) wider⟩
  case gone =>
    intro nobody issued
    exact (spoken.gone nobody issued).mono (List.Subset.refl _) wider wipe
  case unissued => exact spoken.unissued

/-- Nothing changes for a handle when requests are made that were owed. -/
theorem grow {rest : List Step} (spoken : Spoken size found wiped h r log steps)
    (issued : more.issued = []) (said : more.requestsOn h ++ owed h rest = owed h steps) :
    Spoken size found wiped h r (log ++ more) rest := by
  have same : (log ++ more).requestsOn h ++ owed h rest = log.requestsOn h ++ owed h steps := by
    rw [Log.requestsOn_append, List.append_assoc, said]
  have given : (log ++ more).issued = log.issued := by
    rw [Log.issued_append, issued, List.append_nil]
  have grown : log ⊆ log ++ more := List.subset_append_left _ _
  constructor
  case holding =>
    intro a p here holds
    obtain ⟨known, asked⟩ := spoken.holding a p here holds
    rw [given, same]
    exact ⟨known, asked.mono grown fun _ _ => id⟩
  case gone =>
    intro nobody known
    rw [given] at known
    rw [same]
    exact (spoken.gone nobody known).mono grown (fun _ _ => id) id
  case unissued =>
    rw [given, same]
    exact spoken.unissued

theorem quiet (spoken : Spoken size found wiped h r log []) (issued : more.issued = [])
    (silent : more.requestsOn h = []) : Spoken size found wiped h r (log ++ more) [] :=
  spoken.grow issued (by rw [silent]; rfl)

/-- What another peer does is nothing to a handle. -/
theorem of_others {r' : Registry} {a : Address} (spoken : Spoken size found wiped h r log [])
    (others : ∀ b, b ≠ a → r'.get? b = r.get? b)
    (before : ∀ p, r.get? a = some p → p.handle ≠ some h)
    (after : ∀ p, r'.get? a = some p → p.handle ≠ some h) (nothing : owed h steps = []) :
    Spoken size found wiped h r' log steps := by
  constructor
  case holding =>
    intro b p here holds
    have other : b ≠ a := by
      rintro rfl
      exact after p here holds
    rw [others b other] at here
    rw [nothing]
    exact spoken.holding b p here holds
  case gone =>
    intro nobody issued
    rw [nothing]
    refine spoken.gone (fun b p here => ?_) issued
    by_cases other : b = a
    · exact before p (other ▸ here)
    · exact nobody b p (by rw [others b other]; exact here)
  case unissued =>
    rw [nothing]
    exact spoken.unissued

end Spoken

/-- A handle that is held once has one holder. -/
theorem Registry.holder_unique (unique : r.known.Nodup) (once : r.held.count h ≤ 1)
    {a b : Address} {p q : Peer} (here : r.get? a = some p) (holds : p.handle = some h)
    (there : r.get? b = some q) (held : q.handle = some h) : b = a := by
  obtain ⟨xs, ys, split, others⟩ := Registry.split_of_get? unique here
  by_cases same : b = a
  · exact same
  · have distinct : q ≠ p := by
      rintro rfl
      exact same ((Registry.address_of_get? there).symm.trans (Registry.address_of_get? here))
    have among : q ∈ xs ++ ys := by
      have mem := List.mem_of_find?_eq_some there
      simpa [split, distinct] using mem
    have twice : 0 < ((xs ++ ys).filterMap (·.handle)).count h :=
      List.count_pos_iff.2 (List.mem_filterMap.2 ⟨q, among, held⟩)
    simp only [Registry.held, split, List.filterMap_append, List.filterMap_cons, holds,
      List.count_append, List.count_cons_self] at once twice
    omega

theorem Spoken.advance (spoken : Spoken size found wiped h r log []) (orderly : r.Orderly)
    (once : r.held.count h ≤ 1) {policy : LinkPolicy} {a : Address} {event : PeerEvent}
    (sized : ∀ n, policy.unitSize = some n → n = size)
    (just : ∀ p, r.get? a = some p → p.handle = some h →
      event.Justified found log h policy p.phase) :
    Spoken size found wiped h (r.advance policy a event).2 log (r.advance policy a event).1 := by
  have spec := r.advance_spec policy a event
  generalize (r.advance policy a event).1 = steps at spec ⊢
  generalize (r.advance policy a event).2 = after at spec ⊢
  cases spec with
  | ignored => exact spoken
  | @kept p q actions here moved =>
    have view := Registry.get?_putBack here moved
    by_cases holds : p.handle = some h
    · obtain ⟨issued, asked⟩ := spoken.holding a p here holds
      have next := moved.asked (orderly.live a p here) holds sized (just p here holds) asked
      constructor
      case holding =>
        intro b s there held
        rw [view] at there
        by_cases same : b = a
        · obtain rfl : q = s := by simpa [same] using there
          rw [holds, Registry.owed_run_self]
          simpa using And.intro issued next
        · rw [if_neg same] at there
          exact absurd (Registry.holder_unique orderly.unique once here holds there held) same
      case gone =>
        intro nobody
        exact absurd (moved.handle_eq.trans holds) (nobody a q (by rw [view, if_pos rfl]))
      case unissued => exact fun unknown => absurd issued unknown
    · refine spoken.of_others (a := a) (fun b other => by rw [view, if_neg other]) ?_ ?_
        (Registry.owed_run_other holds actions)
      · intro s hs
        obtain rfl : p = s := Option.some.inj (here.symm.trans hs)
        exact holds
      · intro s hs
        obtain rfl : q = s := by simpa [view] using hs
        rw [moved.handle_eq]
        exact holds
  | @ended p before here ended =>
    have left : ∀ s, (r.remove a).2.get? a = some s → s.handle ≠ some h := fun s hs => by
      simp [Registry.get?_remove_self] at hs
    by_cases holds : p.handle = some h
    · obtain ⟨issued, asked⟩ := spoken.holding a p here holds
      have all := ended.conversation (orderly.live a p here) holds (just p here holds) asked
      constructor
      case holding =>
        intro b s there held
        by_cases same : b = a
        · exact absurd held (left s (same ▸ there))
        · rw [Registry.get?_remove_ne same] at there
          exact absurd (Registry.holder_unique orderly.unique once here holds there held) same
      case gone =>
        intro _ _
        refine ⟨_, _, all, Or.inl rfl, ?_⟩
        have last : owed h [.release h, .run .reportDisconnected (some h),
            .run .resumeScanning (some h)] = [.release h] := by
          simp [owed, Step.requests, Action.requests, Request.handle?]
        rw [holds, Registry.owed_append, Registry.owed_run_self]
        simp [last]
      case unissued => exact fun unknown => absurd issued unknown
    · refine spoken.of_others (a := a) (fun b other => Registry.get?_remove_ne other) ?_ left ?_
      · intro s hs
        obtain rfl : p = s := Option.some.inj (here.symm.trans hs)
        exact holds
      · rw [Registry.owed_append, Registry.owed_run_other holds, List.nil_append,
          Registry.owed_append]
        have reports := Registry.owed_run_other holds [.reportDisconnected, .resumeScanning]
        simp only [List.map_cons, List.map_nil] at reports
        rw [reports, List.append_nil]
        cases held : p.handle with
        | none => rfl
        | some k =>
          have other : k ≠ h := fun same => holds (by rw [held, same])
          simp [owed, Step.requests, Request.handle?, other]

theorem Spoken.enroll {a : Address} (spoken : Spoken size found wiped h r log [])
    (unknown : r.contains a = false) :
    Spoken size found wiped h (r.enroll a) log [.run .pauseScanning none, .run .connect none] := by
  have view := Registry.get?_enroll unknown
  refine spoken.of_others (a := a) (fun b other => by rw [view, if_neg other]) ?_ ?_ rfl
  · intro p here
    rw [Registry.contains, here] at unknown
    cases unknown
  · intro p here
    rw [view, if_pos rfl] at here
    obtain rfl := Option.some.inj here
    simp

/-- A handle that is given out has not been talked about. -/
theorem Spoken.attach {a : Address} {p : Peer} {new : Handle}
    (spoken : Spoken size found wiped h r log []) (here : r.get? a = some p) (bare : p.handle = none)
    (phase : p.phase = .connecting) (fresh : new = h → h ∉ log.issued) (issued : more.issued = [new])
    (silent : more.requestsOn h = []) :
    Spoken size found wiped h (r.attach a new).2 (log ++ more) [] := by
  have view := Registry.get?_attach (h := new) here bare phase
  have said : (log ++ more).requestsOn h ++ owed h [] = log.requestsOn h ++ owed h [] := by
    rw [Log.requestsOn_append, silent, List.append_nil]
  have given : (log ++ more).issued = log.issued ++ [new] := by rw [Log.issued_append, issued]
  have grown : log ⊆ log ++ more := List.subset_append_left _ _
  constructor
  case holding =>
    intro b s there holds
    rw [view] at there
    rw [given, said]
    by_cases same : b = a
    · obtain rfl : { p with handle := some new } = s := by simpa [same] using there
      obtain rfl : new = h := Option.some.inj holds
      refine ⟨by simp, ?_⟩
      rw [spoken.unissued (fresh rfl), show p.phase = _ from phase]
      exact .connecting
    · rw [if_neg same] at there
      obtain ⟨known, asked⟩ := spoken.holding b s there holds
      exact ⟨List.mem_append_left _ known, asked.mono grown fun _ _ => id⟩
  case gone =>
    intro nobody known
    have other : new ≠ h := fun same =>
      nobody a { p with handle := some new } (by rw [view, if_pos rfl]) (congrArg some same)
    rw [given] at known
    rw [said]
    refine (spoken.gone (fun b s there => ?_) ?_).mono grown (fun _ _ => id) id
    · by_cases same : b = a
      · obtain rfl : p = s := Option.some.inj (here.symm.trans (same ▸ there))
        simp [bare]
      · exact nobody b s (by rw [view, if_neg same]; exact there)
    · simpa [Ne.symm other] using known
  case unissued =>
    intro unknown
    rw [given] at unknown
    rw [said]
    exact spoken.unissued fun known => unknown (List.mem_append_left _ known)

/-- Writes come after the notifications are on, and there may be any number of them. -/
theorem Spoken.write {a : Address} {p : Peer} {k : Handle} {c : Uuid} {data : Bytes} {answer : Bool}
    (spoken : Spoken size found wiped h r log []) (orderly : r.Orderly) (once : r.held.count h ≤ 1)
    (here : r.get? a = some p) (ready : p.phase = .ready) (holds : p.handle = some k) :
    Spoken size found wiped h r (log ++ [.asked (.write k c data .withResponse) answer]) [] := by
  by_cases same : k = h
  · subst same
    obtain ⟨issued, asked⟩ := spoken.holding a p here holds
    have given : (log ++ [Exchange.asked (.write k c data .withResponse) answer]).issued = log.issued := by
      rw [Log.issued_append, Log.issued_asked, List.append_nil]
    have said : (log ++ [Exchange.asked (.write k c data .withResponse) answer]).requestsOn k =
        log.requestsOn k ++ [.write k c data .withResponse] := by
      simp [Log.requestsOn_asked, Request.handle?]
    constructor
    case holding =>
      intro b q there held
      obtain rfl := Registry.holder_unique orderly.unique once here holds there held
      obtain rfl : p = q := Option.some.inj (here.symm.trans there)
      rw [given, said]
      rw [ready] at asked ⊢
      have next := asked.write c data
      simp only [Registry.owed_nil, List.append_nil] at next ⊢
      exact ⟨issued, next.mono (List.subset_append_left _ _) fun _ _ => id⟩
    case gone => exact fun nobody => absurd holds (nobody a p here)
    case unissued =>
      rw [given]
      exact fun unknown => absurd issued unknown
  · refine spoken.quiet rfl ?_
    simp [Log.requestsOn_asked, Request.handle?, same]

theorem requestsOn_releases {hs : List Handle} (once : hs.count h ≤ 1)
    (requests : log.requests = hs.map .release) :
    log.requestsOn h = if h ∈ hs then [.release h] else [] := by
  have only : (hs.map Request.release).filter (fun request => decide (request.handle? = some h)) =
      (hs.filter (· = h)).map .release := by
    rw [List.filter_map]
    congr 1
    refine List.filter_congr fun k _ => ?_
    simp [Request.handle?]
  rw [Log.requestsOn, requests, only, List.filter_eq]
  by_cases held : h ∈ hs
  · have one : hs.count h = 1 := by
      have some := List.count_pos_iff.2 held
      omega
    rw [one, if_pos held]
    rfl
  · rw [List.count_eq_zero.2 held, if_neg held]
    rfl

/-- Forgetting every peer closes every conversation where it stands. -/
theorem Spoken.clear {order : Registry.Order} (spoken : Spoken size found wiped h r log [])
    (unique : r.known.Nodup) (once : r.held.count h ≤ 1) (issued : more.issued = [])
    (requests : more.requests = (r.clear order).1.map .release) (wipe : wiped) :
    Spoken size found wiped h {} (log ++ more) [] := by
  have given : (log ++ more).issued = log.issued := by
    rw [Log.issued_append, issued, List.append_nil]
  have grown : log ⊆ log ++ more := List.subset_append_left _ _
  have said : (log ++ more).requestsOn h ++ owed h [] =
      log.requestsOn h ++ owed h [] ++ if h ∈ r.held then [.release h] else [] := by
    rw [Log.requestsOn_append,
      requestsOn_releases ((Registry.clear_perm order r).count_eq h ▸ once) requests]
    simp [(Registry.clear_perm order r).mem_iff]
  constructor
  case holding =>
    intro a p here
    simp [Registry.get?] at here
  case gone =>
    intro _ known
    rw [given] at known
    rw [said]
    by_cases held : h ∈ r.held
    · obtain ⟨p, hp, holds⟩ := List.mem_filterMap.1 held
      obtain ⟨-, asked⟩ := spoken.holding _ p (Registry.get?_of_mem unique hp) holds
      obtain ⟨all, conversation, begun⟩ := asked.beginning
      rw [if_pos held]
      exact ⟨all, _, conversation.mono grown fun _ _ => id, Or.inr ⟨wipe, begun⟩, rfl⟩
    · rw [if_neg held, List.append_nil]
      refine (spoken.gone (fun a p here holds => held ?_) known).mono grown (fun _ _ => id) id
      exact List.mem_filterMap.2 ⟨p, List.mem_of_find?_eq_some here, holds⟩
  case unissued =>
    intro unknown
    rw [given] at unknown
    have free : h ∉ r.held := fun held => by
      obtain ⟨p, hp, holds⟩ := List.mem_filterMap.1 held
      exact unknown (spoken.holding _ p (Registry.get?_of_mem unique hp) holds).1
    rw [said, if_neg free, List.append_nil]
    exact spoken.unissued unknown

theorem PeerEvent.Justified.mono {event : PeerEvent} {policy : LinkPolicy} {phase : Phase}
    (just : event.Justified found log h policy phase) (grown : log ⊆ more) :
    event.Justified found more h policy phase := by
  cases event with
  | servicesDiscovered => exact just
  | discoveryRefused => exact grown just
  | enableFailed => exact Log.EnableFailed.mono just grown
  | connectRequested | connectFailed | linkUp | linkDown | enabled | negotiationUnavailable
  | unitSizeReported | disableSettled | disableRefused | disconnectRequested => trivial

/-- What a step calls for is justified by what it has put into the record. -/
theorem Carried.justified {action : Action} {event : Option PeerEvent} {policy : LinkPolicy}
    {phase : Phase} (carried : Carried (.run action (some h)) more event) :
    ∀ e ∈ event, e.Justified found more h policy phase := by
  cases carried with
  | asked asks answer =>
    cases asks with
    | discover =>
      cases answer with
      | false =>
        intro e he
        obtain rfl : .discoveryRefused = e := by simpa using he
        exact List.mem_singleton.2 rfl
      | true => simp
    | unitSize => cases answer <;> simp [PeerEvent.Justified]
    | invalidateCache | disconnect => simp
  | subscribed switched =>
    cases switched with
    | refused target =>
      intro e he
      obtain rfl := Option.some.inj he
      exact Or.inl ⟨_, List.mem_cons_of_mem _ (List.mem_singleton.2 rfl)⟩
    | bare | written => simp [PeerEvent.Justified]
  | unsubscribed switched => cases switched <;> simp [PeerEvent.Justified]
  | unqueued => simp [PeerEvent.Justified]
  | scan | queued | silent => simp

namespace World

section

variable (size : UInt16) (found : List Characteristic → List Characteristic → Prop) (wiped : Prop)
  (h : Handle)

/-- What holds while the peer of an address settles. -/
structure Talks (a : Address) (steps : List Step) (events : List PeerEvent)
    (w : World (Recorded σ)) : Prop where
  orderly : w.central.registry.Orderly
  once : w.central.registry.held.count h ≤ 1
  sized : w.central.settings.unitSize = size
  spoken : Spoken size found wiped h w.central.registry w.radio.log steps
  linked : w.central.registry.Linked a steps
  justified : ∀ event ∈ events, ∀ p, w.central.registry.get? a = some p → p.handle = some h →
    ∀ policy phase, event.Justified found w.radio.log h policy phase

end

theorem unitSize_policy {R : Radio σ} {w : World σ} :
    ∀ n, (w.policy R).unitSize = some n → n = w.central.settings.unitSize := by
  intro n hn
  simp only [policy] at hn
  split at hn
  · exact (Option.some.inj hn).symm
  · cases hn

theorem talks_execute {R : Radio σ} {a : Address} {step : Step} {events : List PeerEvent}
    {event : Option PeerEvent} {w : World (Recorded σ)}
    (talks : Talks size found wiped h a (step :: steps) events w)
    (grown : (w.execute R.recorded a step).2.radio.log = w.radio.log ++ more)
    (carried : Carried step more event) :
    Talks size found wiped h a steps (events ++ event.toList) (w.execute R.recorded a step).2 where
  orderly := by
    rw [registry_execute]
    exact talks.orderly
  once := by
    rw [registry_execute]
    exact talks.once
  sized := by
    rw [settings_execute]
    exact talks.sized
  spoken := by
    rw [registry_execute, grown]
    refine talks.spoken.grow carried.issued_eq ?_
    rw [carried.requestsOn h, ← Registry.owed_cons]
  linked := by
    rw [registry_execute]
    exact fun p here action handle mem =>
      talks.linked p here action handle (List.mem_cons_of_mem step mem)
  justified := by
    rw [registry_execute, grown]
    intro e he p here holds policy phase
    rcases List.mem_append.1 he with old | new
    · exact (talks.justified e old p here holds policy phase).mono (List.subset_append_left _ _)
    · cases step with
      | release k =>
        cases carried
        cases new
      | run action handle =>
        have own := talks.linked p here action handle List.mem_cons_self
        rw [own, holds] at carried
        have fresh : e.Justified found _ h policy phase := carried.justified e (by simpa using new)
        exact fresh.mono (List.subset_append_right _ _)

theorem talks_transition {R : Radio σ} {a : Address} {event : PeerEvent} {events : List PeerEvent}
    {w : World (Recorded σ)} (talks : Talks size found wiped h a [] events w)
    (linked : event = .linkUp → ∀ p, w.central.registry.get? a = some p → p.handle.isSome)
    (just : ∀ p, w.central.registry.get? a = some p → p.handle = some h →
      event.Justified found w.radio.log h (w.policy R.recorded) p.phase) :
    Talks size found wiped h a (w.transition R.recorded a event).1 events
      (w.transition R.recorded a event).2 where
  orderly := talks.orderly.advance _ a event linked
  once := Registry.count_held_advance talks.orderly.unique talks.once
  sized := talks.sized
  spoken := talks.spoken.advance talks.orderly talks.once
    (fun n hn => (unitSize_policy n hn).trans talks.sized) just
  linked := Registry.linked_advance _ a event _
  justified := by
    intro e he q there holds
    obtain ⟨p, here, same⟩ := Registry.handle_advance there
    exact talks.justified e he p here (same ▸ holds)

theorem talks_settle {R : Radio σ} {a : Address} {w : World (Recorded σ)}
    (talks : Talks size found wiped h a steps [] w) :
    Talks size found wiped h a [] [] (w.settle R.recorded a steps []) := by
  refine settle_recorded (I := Talks size found wiped h a) ?_ ?_ talks
  · intro step steps events w more event now grown carried _
    exact talks_execute now grown carried
  · intro event events w followUp now
    refine talks_transition ⟨now.orderly, now.once, now.sized, now.spoken, now.linked, fun e he =>
      now.justified e (List.mem_cons_of_mem event he)⟩ (fun up => ?_) fun p here holds =>
        now.justified event List.mem_cons_self p here holds _ _
    rw [up] at followUp
    cases followUp

theorem spoken_drive {R : Radio σ} {a : Address} {event : PeerEvent} {w : World (Recorded σ)}
    (orderly : w.central.registry.Orderly) (once : w.central.registry.held.count h ≤ 1)
    (sized : w.central.settings.unitSize = size)
    (spoken : Spoken size found wiped h w.central.registry w.radio.log [])
    (linked : event = .linkUp → ∀ p, w.central.registry.get? a = some p → p.handle.isSome)
    (just : ∀ p, w.central.registry.get? a = some p → p.handle = some h →
      event.Justified found w.radio.log h (w.policy R.recorded) p.phase) :
    Spoken size found wiped h (w.drive R.recorded a event).central.registry
      (w.drive R.recorded a event).radio.log [] := by
  rw [drive_eq]
  have talks : Talks size found wiped h a [] [] w :=
    ⟨orderly, once, sized, spoken, fun _ _ _ _ mem => absurd mem List.not_mem_nil,
      fun _ mem => absurd mem List.not_mem_nil⟩
  exact (talks_settle (talks_transition talks linked just)).spoken

def finds (w : World σ) (services : List Service) : List Characteristic × List Characteristic :=
  let cs := (wantedCharacteristics w.central.settings.service services).getD []
  (cs, cs.filter fun c => decide (c.uuid ∈ w.central.notify))

/-- The peer that holds a handle is discovering. -/
def discovers (w : World σ) (h : Handle) : Prop :=
  ∃ a p, w.central.registry.addressFor? h = some a ∧ w.central.registry.get? a = some p ∧
    p.phase = .discovering

theorem justified_reached {R : Radio σ} {event : RadioEvent} {a : Address} {told : PeerEvent}
    {w : World (Recorded σ)} (orderly : w.central.registry.Orderly) (reaches : w.Reaches event a told)
    (discovery : ∀ services, event = .servicesDiscovered h services → w.discovers h →
      found (w.finds services).1 (w.finds services).2) :
    ∀ p, w.central.registry.get? a = some p → p.handle = some h →
      told.Justified found (w.radio.log ++ [.told event]) h ((w.hear (some event)).policy R.recorded)
        p.phase := by
  intro p here holds
  obtain ⟨k, q, means, known, there, held⟩ := reaches.holds orderly
  obtain rfl : p = q := Option.some.inj (here.symm.trans there)
  obtain rfl : h = k := Option.some.inj (holds.symm.trans held)
  cases event with
  | connected | disconnected | unitSizeChanged =>
    cases means
    trivial
  | servicesDiscovered k services =>
    cases means
    intro phase
    exact discovery services rfl ⟨a, p, known, here, phase⟩
  | descriptorWritten k c value success =>
    simp only [RadioEvent.peerEvent?, Option.map_eq_some_iff, Prod.mk.injEq] at means
    obtain ⟨result, stands, rfl, rfl⟩ := means
    unfold Subscription.resultEvent? at stands
    split at stands
    · rename_i enable
      cases success with
      | true =>
        cases stands
        trivial
      | false =>
        cases stands
        exact Or.inr ⟨c, by simp [enable]⟩
    · split at stands
      · cases stands
        trivial
      · cases stands
  | advertisement | characteristicChanged | characteristicWritten => cases means

theorem spoken_turn {R : Radio σ} {x : Happening σ} {w w' : World (Recorded σ)}
    (turn : Turn R x w w') (conserved : Conserved w.central.registry w.radio.log [])
    (orderly : w.central.registry.Orderly) (single : w'.radio.log.issued.count h ≤ 1)
    (sized : w.central.settings.unitSize = size) (sized' : w'.central.settings.unitSize = size)
    (discovery : ∀ services, x = .operation (.radioEvent (.servicesDiscovered h services)) →
      w.discovers h → found (w.finds services).1 (w.finds services).2)
    (wipe : x.Resets → wiped)
    (spoken : Spoken size found wiped h w.central.registry w.radio.log []) :
    Spoken size found wiped h w'.central.registry w'.radio.log [] := by
  have once : w.central.registry.held.count h ≤ 1 := by
    have before := (issued_turn R turn).count_le h
    have kept := conserved.count_held_le h
    omega
  cases turn with
  | quiet registry _ grown idle =>
    rw [registry, grown]
    refine spoken.quiet (Log.issued_eq_nil fun e he => ?_) (Log.requestsOn_eq_nil fun q hq => ?_)
    · rcases idle e he with scan | ⟨event, rfl, -⟩
      · exact scan.issued?
      · rfl
    · obtain ⟨e, he, hreq⟩ := List.mem_filterMap.1 hq
      rcases idle e he with ⟨asked, answer, rfl, free⟩ | ⟨event, rfl, -⟩
      · obtain rfl : asked = q := by simpa [Exchange.request?] using hreq
        simp [free]
      · cases hreq
  | @reached _ event a told reaches =>
    exact spoken_drive orderly once sized (spoken.quiet rfl rfl) (reaches.linked orderly)
      (justified_reached orderly reaches fun services same => discovery services (by rw [same]))
  | disconnected =>
    exact spoken_drive orderly once sized spoken (fun up => by cases up) fun _ _ _ => trivial
  | @admitted _ _ a data unknown =>
    have entered : (w.central.registry.enroll a).held.count h ≤ 1 := by
      rw [Registry.held_enroll]
      exact once
    have talks : Talks size found wiped h a [.run .pauseScanning none, .run .connect none] []
        ((w.hear (some (.advertisement a data))).enter a) :=
      ⟨orderly.enroll unknown, entered, sized, (spoken.quiet rfl rfl).enroll unknown,
        Registry.linked_enroll unknown, by simp⟩
    exact (talks_settle talks).spoken
  | passed _ registry log | dropped registry log =>
    rw [registry, log]
    exact spoken
  | @attached _ _ _ a p new more here phase bare registry grown dials =>
    have fresh : new = h → h ∉ w.radio.log.issued := by
      rintro rfl known
      have some := List.count_pos_iff.2 known
      simp only [grown, Log.issued_append, dials.issued_eq, List.count_append, Option.toList_some,
        List.count_singleton_self] at single
      omega
    rw [registry, grown]
    exact spoken.attach here bare phase fresh dials.issued_eq
      (dials.requestsOn_eq h)
  | @failed _ _ w' a more _ registry grown dials =>
    rw [settings_drive] at sized'
    refine spoken_drive (by rw [registry]; exact orderly) (by rw [registry]; exact once) sized' ?_ (fun up => by cases up)
      fun _ _ _ => trivial
    rw [registry, grown]
    exact spoken.quiet dials.issued_eq (dials.requestsOn_eq h)
  | written here ready holds registry _ grown =>
    rw [registry, grown]
    exact spoken.write orderly once here ready holds
  | reset order =>
    obtain ⟨more, grown, issued, requests⟩ := log_reset R w order
    rw [registry_reset, grown]
    exact spoken.clear conserved.unique once issued requests (wipe ⟨order, rfl⟩)

/-- In a run the services of a discovering peer were found on a handle: the wanted service had the
characteristics `cs`, of which `targets` were in the notify set at that time. -/
def FoundOn (R : Radio σ) (settings : Settings) (s : σ) (history : List (Happening σ)) (h : Handle)
    (cs targets : List Characteristic) : Prop :=
  ∃ before services after,
    history = before ++ .operation (.radioEvent (.servicesDiscovered h services)) :: after ∧
      (outcome R settings s before).discovers h ∧
      (outcome R settings s before).finds services = (cs, targets)

theorem FoundOn.later {R : Radio σ} {settings : Settings} {s : σ} {history : List (Happening σ)}
    {cs targets : List Characteristic} (x : Happening σ) (h' : FoundOn R settings s history h cs targets) :
    FoundOn R settings s (history ++ [x]) h cs targets := by
  obtain ⟨before, services, after, rfl, discovers, finds⟩ := h'
  exact ⟨before, services, after ++ [x], by simp, discovers, finds⟩

theorem spoken_outcome (R : Radio σ) (settings : Settings) (s : σ) (h : Handle)
    (history : List (Happening σ))
    (single : (outcome R settings s history).radio.log.issued.count h ≤ 1) :
    Spoken settings.unitSize (FoundOn R settings s history h) (∃ y ∈ history, y.Resets) h
      (outcome R settings s history).central.registry (outcome R settings s history).radio.log [] := by
  have all := history_induction R settings s
    (P := fun history w => Conserved w.central.registry w.radio.log [] ∧ w.central.registry.Orderly ∧
      (w.radio.log.issued.count h ≤ 1 → Spoken settings.unitSize (FoundOn R settings s history h)
        (∃ y ∈ history, y.Resets) h w.central.registry w.radio.log []))
    ?start ?grow ?turn history
  case start =>
    exact ⟨conserved_empty, Registry.orderly_empty, fun _ => spoken_empty⟩
  case grow =>
    rintro history x ⟨conserved, orderly, spoken⟩
    refine ⟨conserved, orderly, fun single => ?_⟩
    exact (spoken single).mono (fun _ _ services => services.later x)
      fun ⟨y, mem, resets⟩ => ⟨y, List.mem_append_left [x] mem, resets⟩
  case turn =>
    rintro history x w w' from' same same' turn ⟨conserved, orderly, spoken⟩
    refine ⟨conserved_turn turn conserved, orderly_turn turn orderly, fun single => ?_⟩
    have before := (issued_turn R turn).count_le h
    refine spoken_turn turn conserved orderly single (by rw [same]) (by rw [same'])
      (fun services here discovers => ?_)
      (fun resets => ⟨x, List.mem_append_right history (List.mem_singleton_self x), resets⟩)
      (spoken (Nat.le_trans before single))
    subst here
    obtain rfl := from'.resolve_left (by simp [Happening.Stops])
    exact ⟨history, services, [], rfl, discovers, rfl⟩
  exact all.2.2 single

/-- The protocol of a connection. For a handle that stands for one connection, given out at most once,
the requests that name it in a run begin a whole conversation followed by the release, or, if every
peer was forgotten at once, they are a beginning of a conversation followed by the release. -/
theorem requests_on_handle (R : Radio σ) (settings : Settings) (s : σ) (history : List (Happening σ))
    (h : Handle) (single : (outcome R settings s history).radio.log.issued.count h ≤ 1) :
    let log := (outcome R settings s history).radio.log
    ∃ all, Conversation settings.unitSize (FoundOn R settings s history h) log h all ∧
      (log.requestsOn h <+: all ++ [.release h] ∨
        (∃ y ∈ history, y.Resets) ∧ ∃ said, said <+: all ∧ log.requestsOn h = said ++ [.release h]) := by
  intro log
  have spoken := spoken_outcome R settings s h history single
  have whole : log.requestsOn h ++ owed h [] = log.requestsOn h := List.append_nil _
  by_cases issued : h ∈ log.issued
  · by_cases held : ∃ a p, (outcome R settings s history).central.registry.get? a = some p ∧
        p.handle = some h
    · obtain ⟨a, p, here, holds⟩ := held
      obtain ⟨-, asked⟩ := spoken.holding a p here holds
      rw [whole] at asked
      obtain ⟨all, conversation, begun⟩ := asked.beginning
      exact ⟨all, conversation, Or.inl (begun.trans (List.prefix_append all _))⟩
    · obtain ⟨all, before, conversation, ended, said⟩ :=
        spoken.gone (fun a p here holds => held ⟨a, p, here, holds⟩) issued
      rw [whole] at said
      refine ⟨all, conversation, ?_⟩
      rcases ended with rfl | ⟨reset, begun⟩
      · exact Or.inl (said ▸ List.prefix_refl _)
      · exact Or.inr ⟨reset, before, begun, said⟩
  · have nothing := spoken.unissued issued
    rw [whole] at nothing
    exact ⟨[], .unused, Or.inl (nothing ▸ List.nil_prefix)⟩

theorem requests_of_encounter :
    let w := outcome SimulatedRadio.radio Encounter.settings {} Encounter.history
    w.radio.log.issued.count ⟨1⟩ ≤ 1 ∧ ∃ all, Conversation 512
      (FoundOn SimulatedRadio.radio Encounter.settings {} Encounter.history ⟨1⟩) w.radio.log ⟨1⟩ all ∧
        w.radio.log.requestsOn ⟨1⟩ <+: all ++ [.release ⟨1⟩] := by
  have distinct := issued_nodup SimulatedRadio.numbers Encounter.settings {} Encounter.history
    (by simp [Encounter.history])
  have single := List.nodup_iff_count_le_one.1 distinct ⟨1⟩
  obtain ⟨all, conversation, begun | ⟨reset, -⟩⟩ := requests_on_handle SimulatedRadio.radio
    Encounter.settings {} Encounter.history ⟨1⟩ single
  · exact ⟨single, all, conversation, begun⟩
  · simp [Encounter.history, Happening.Resets] at reset

end World

end RadioCentral
