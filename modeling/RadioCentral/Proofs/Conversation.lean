import RadioCentral.Proofs.Registry.Coherence
import RadioCentral.Proofs.Run.Carrying

/-!
What may be asked of the radio on one connection, from its first request to its last, and which part
of it has been asked in each phase.
-/
namespace RadioCentral

open Registry (Step)

def switching (h : Handle) (enable : Bool) (c : Characteristic) : List Request :=
  .setNotify h c.uuid enable ::
    c.clientConfiguration?.toList.map (.writeDescriptor h · (Subscription.value enable))

def Action.requests (h : Handle) : Action → List Request
  | .discoverServices => [.discover h]
  | .subscribe c => switching h true c
  | .unsubscribe c => switching h false c
  | .requestUnitSize size => [.requestUnitSize h size]
  | .invalidateCache => [.invalidateCache h]
  | .disconnect => [.disconnect h]
  | .pauseScanning | .resumeScanning | .connect | .release | .forget | .reportConnected _
  | .reportDisconnected => []

theorem Action.handle?_requests {h : Handle} {action : Action} :
    ∀ request ∈ action.requests h, request.handle? = some h := by
  cases action <;> simp [requests, switching, Request.handle?]

namespace Registry

def Step.requests : Step → List Request
  | .run action (some h) => action.requests h
  | .run _ none => []
  | .release h => [.release h]

def owed (h : Handle) (steps : List Step) : List Request :=
  (steps.flatMap Step.requests).filter fun request => request.handle? = some h

@[simp] theorem owed_nil (h : Handle) : owed h [] = [] := rfl

@[simp] theorem owed_append (h : Handle) (s t : List Step) : owed h (s ++ t) = owed h s ++ owed h t := by
  simp [owed]

theorem owed_cons (h : Handle) (step : Step) (steps : List Step) :
    owed h (step :: steps) = owed h [step] ++ owed h steps := by
  rw [← owed_append, List.singleton_append]

theorem owed_run_self (h : Handle) (actions : List Action) :
    owed h (actions.map (.run · (some h))) = actions.flatMap (Action.requests h) := by
  have all : (actions.map (Step.run · (some h))).flatMap Step.requests =
      actions.flatMap (Action.requests h) := by
    rw [List.flatMap_map]
    rfl
  rw [owed, all, List.filter_eq_self]
  intro request hr
  obtain ⟨action, -, hr⟩ := List.mem_flatMap.1 hr
  simpa using Action.handle?_requests request hr

theorem owed_run_other {h : Handle} {handle : Option Handle} (other : handle ≠ some h)
    (actions : List Action) : owed h (actions.map (.run · handle)) = [] := by
  refine List.filter_eq_nil_iff.2 fun request hr => ?_
  obtain ⟨step, hs, hr⟩ := List.mem_flatMap.1 hr
  obtain ⟨action, -, rfl⟩ := List.mem_map.1 hs
  cases handle with
  | none => cases hr
  | some k =>
    rw [Action.handle?_requests request hr]
    simpa using other

end Registry

theorem Log.requestsOn_eq_nil {h : Handle} {log : Log}
    (none : ∀ request ∈ log.requests, request.handle? ≠ some h) : log.requestsOn h = [] :=
  List.filter_eq_nil_iff.2 fun request hr => by simpa using none request hr

theorem Exchange.AboutScan.requestsOn {h : Handle} {log : Log} (about : ∀ e ∈ log, e.AboutScan) :
    log.requestsOn h = [] := by
  refine Log.requestsOn_eq_nil fun request hr => ?_
  obtain ⟨e, he, hreq⟩ := List.mem_filterMap.1 hr
  obtain ⟨asked, answer, rfl, free⟩ := about e he
  obtain rfl : asked = request := by simpa [Exchange.request?] using hreq
  simp [free]

/-- Carrying a step out makes the requests it is there to make. -/
theorem Carried.requestsOn {step : Step} {log : Log} {event : Option PeerEvent}
    (carried : Carried step log event) (h : Handle) : log.requestsOn h = Registry.owed h [step] := by
  cases carried with
  | scan what about =>
    rw [Exchange.AboutScan.requestsOn about]
    rcases what with rfl | rfl <;> cases ‹Option Handle› <;> rfl
  | asked asks => cases asks <;> rfl
  | subscribed switched | unsubscribed switched =>
    cases switched with
    | bare without =>
      simp [Log.requestsOn, Log.requests, Exchange.request?, Registry.owed, Registry.Step.requests,
        Action.requests, switching, without]
    | written target | refused target =>
      simp [Log.requestsOn, Log.requests, Exchange.request?, Registry.owed, Registry.Step.requests,
        Action.requests, switching, target]
  | silent what =>
    rcases what with ⟨size, rfl⟩ | what
    · cases ‹Option Handle› <;> rfl
    · simp only [List.mem_cons, List.not_mem_nil, or_false] at what
      rcases what with rfl | rfl | rfl <;> cases ‹Option Handle› <;> rfl
  | queued | unqueued => cases ‹Option Handle› <;> rfl
  | released | unlinked => rfl

/-- Switching some notification on failed: the write was refused, or answered by a failure. -/
def Log.EnableFailed (h : Handle) (log : Log) : Prop :=
  (∃ d, .asked (.writeDescriptor h d enableIndication) false ∈ log) ∨
    ∃ c, .told (.descriptorWritten h c enableIndication false) ∈ log

def Log.Undiscovered (h : Handle) (log : Log) : Prop := .asked (.discover h) false ∈ log

section Language

variable (size : UInt16) (found : List Characteristic → List Characteristic → Prop) (log : Log)
  (h : Handle)

/-- What is asked for on a connection before its handle goes back. Here `found cs targets` says that
the wanted service was discovered with the characteristics `cs`, of which `targets` were wanted. -/
inductive Conversation : List Request → Prop
  | unused : Conversation []
  | discovered : Conversation [.discover h]
  | undiscovered (refused : log.Undiscovered h) : Conversation [.discover h, .disconnect h]
  | unsuited {targets : List Characteristic} (nothing : found [] targets) :
      Conversation [.discover h, .invalidateCache h, .disconnect h]
  | served {cs targets : List Characteristic} {negotiation writes : List Request}
      (services : found cs targets) (some : cs ≠ [])
      (negotiated : negotiation = [] ∨ negotiation = [.requestUnitSize h size])
      (written : ∀ request ∈ writes, ∃ c data, request = .write h c data .withResponse) :
      Conversation (.discover h :: (targets.flatMap (switching h true) ++ negotiation ++ writes ++
        targets.flatMap (switching h false)))
  | unsubscribed {cs targets : List Characteristic} (services : found cs targets) (some : cs ≠ [])
      (failed : log.EnableFailed h) :
      Conversation (.discover h :: (targets.flatMap (switching h true) ++
        targets.flatMap (switching h false) ++ [.disconnect h]))

/-- What has been asked for when a peer with given notify targets has reached a phase. -/
inductive Asked : Phase → List Characteristic → List Request → Prop
  | connecting {targets : List Characteristic} : Asked .connecting targets []
  | discovering {targets : List Characteristic} : Asked .discovering targets [.discover h]
  | subscribing {cs targets : List Characteristic} (services : found cs targets) (some : cs ≠ []) :
      Asked .subscribing targets (.discover h :: targets.flatMap (switching h true))
  | negotiating {cs targets : List Characteristic} (services : found cs targets) (some : cs ≠ []) :
      Asked .negotiating targets
        (.discover h :: (targets.flatMap (switching h true) ++ [.requestUnitSize h size]))
  | ready {cs targets : List Characteristic} {negotiation writes : List Request}
      (services : found cs targets) (some : cs ≠ [])
      (negotiated : negotiation = [] ∨ negotiation = [.requestUnitSize h size])
      (written : ∀ request ∈ writes, ∃ c data, request = .write h c data .withResponse) :
      Asked .ready targets
        (.discover h :: (targets.flatMap (switching h true) ++ negotiation ++ writes))
  | disconnecting {targets : List Characteristic} {said : List Request}
      (said_all : Conversation size found log h said) : Asked .disconnecting targets said

def PeerEvent.Justified (policy : LinkPolicy) (phase : Phase) : PeerEvent → Prop
  | .servicesDiscovered cs =>
    phase = .discovering → found (cs.getD []) (Peer.wanted policy (cs.getD []))
  | .discoveryRefused => log.Undiscovered h
  | .enableFailed _ => log.EnableFailed h
  | .connectRequested | .connectFailed | .linkUp | .linkDown | .enabled _ | .negotiationUnavailable
  | .unitSizeReported _ | .disableSettled _ | .disableRefused | .disconnectRequested => True

end Language

section

variable {size : UInt16} {found : List Characteristic → List Characteristic → Prop} {log : Log}
  {h : Handle}

theorem Log.EnableFailed.mono {more : Log} (failed : log.EnableFailed h) (grown : log ⊆ more) :
    more.EnableFailed h :=
  failed.imp (fun ⟨d, hd⟩ => ⟨d, grown hd⟩) fun ⟨c, hc⟩ => ⟨c, grown hc⟩

theorem Conversation.mono {more : Log} {said : List Request}
    {found' : List Characteristic → List Characteristic → Prop}
    (all : Conversation size found log h said) (grown : log ⊆ more)
    (wider : ∀ cs targets, found cs targets → found' cs targets) :
    Conversation size found' more h said := by
  cases all with
  | unused => exact .unused
  | discovered => exact .discovered
  | undiscovered refused => exact .undiscovered (grown refused)
  | unsuited nothing => exact .unsuited (wider _ _ nothing)
  | served services some negotiated written =>
    exact .served (wider _ _ services) some negotiated written
  | unsubscribed services some failed =>
    exact .unsubscribed (wider _ _ services) some (failed.mono grown)

theorem Asked.mono {more : Log} {phase : Phase} {targets : List Characteristic}
    {said : List Request} {found' : List Characteristic → List Characteristic → Prop}
    (asked : Asked size found log h phase targets said) (grown : log ⊆ more)
    (wider : ∀ cs targets, found cs targets → found' cs targets) :
    Asked size found' more h phase targets said := by
  cases asked with
  | connecting => exact .connecting
  | discovering => exact .discovering
  | subscribing services some => exact .subscribing (wider _ _ services) some
  | negotiating services some => exact .negotiating (wider _ _ services) some
  | ready services some negotiated written => exact .ready (wider _ _ services) some negotiated written
  | disconnecting said_all => exact .disconnecting (said_all.mono grown wider)

/-- What has been asked for is the beginning of a conversation. -/
theorem Asked.beginning {phase : Phase} {targets : List Characteristic} {said : List Request}
    (asked : Asked size found log h phase targets said) :
    ∃ all, Conversation size found log h all ∧ said <+: all := by
  have none : ∀ request ∈ ([] : List Request), ∃ c data, request = .write h c data .withResponse := by
    simp
  cases asked with
  | connecting => exact ⟨_, .unused, List.prefix_refl _⟩
  | discovering => exact ⟨_, .discovered, List.prefix_refl _⟩
  | subscribing services some =>
    refine ⟨_, .served services some (Or.inl rfl) none, ?_⟩
    simp
  | negotiating services some =>
    refine ⟨_, .served services some (Or.inr rfl) none, ?_⟩
    simp
  | ready services some negotiated written =>
    refine ⟨_, .served services some negotiated written, ?_⟩
    simp
  | disconnecting said_all => exact ⟨_, said_all, List.prefix_refl _⟩

/-- While a peer is ready there may be any number of writes. -/
theorem Asked.write {targets : List Characteristic} {said : List Request} (c : Uuid) (data : Bytes)
    (asked : Asked size found log h .ready targets said) :
    Asked size found log h .ready targets (said ++ [.write h c data .withResponse]) := by
  cases asked with
  | @ready cs _ negotiation writes services some negotiated written =>
    have all : Asked size found log h .ready targets (.discover h :: (targets.flatMap (switching h true) ++
        negotiation ++ (writes ++ [.write h c data .withResponse]))) := by
      refine .ready services some negotiated fun request hr => ?_
      rcases List.mem_append.1 hr with old | new
      · exact written request old
      · exact ⟨c, data, List.mem_singleton.1 new⟩
    simpa using all

namespace Peer

variable {policy : LinkPolicy} {p q : Peer} {event : PeerEvent} {actions : List Action}
  {said : List Request}

theorem requests_leavingActions {disconnect : Bool} (holds : p.handle = some h) :
    (p.leavingActions disconnect).flatMap (Action.requests h) =
      p.notifyTargets.flatMap (switching h false) ++ if disconnect then [.disconnect h] else [] := by
  have targets : (p.notifyTargets.map Action.unsubscribe).flatMap (Action.requests h) =
      p.notifyTargets.flatMap (switching h false) := by
    rw [List.flatMap_map]
    rfl
  rw [leavingActions, List.flatMap_append, targets, holds]
  cases disconnect <;> rfl

/-- Beginning the teardown completes what is asked for on the connection. -/
theorem Leaves.conversation {disconnect : Bool} (leaves : p.Leaves event disconnect) (live : p.Live)
    (holds : p.handle = some h) (just : event.Justified found log h policy p.phase)
    (asked : Asked size found log h p.phase p.notifyTargets said) :
    Conversation size found log h (said ++ (p.leavingActions disconnect).flatMap (Action.requests h)) := by
  rw [requests_leavingActions holds]
  have early : p.phase.rank ≤ Phase.discovering.rank → p.notifyTargets = [] := live.sound.untargeted
  have away := leaves.away
  cases leaves with
  | linkDown | requested =>
    generalize p.phase = phase at asked early away
    simp only [Bool.false_eq_true, ↓reduceIte, List.append_nil]
    cases asked with
    | connecting =>
      rw [early (by decide)]
      exact .unused
    | discovering =>
      rw [early (by decide)]
      exact .discovered
    | subscribing services some =>
      have all : Conversation size found log h (.discover h :: (p.notifyTargets.flatMap (switching h true) ++
          [] ++ [] ++ p.notifyTargets.flatMap (switching h false))) :=
        .served services some (Or.inl rfl) (by simp)
      simpa using all
    | negotiating services some =>
      have all : Conversation size found log h (.discover h :: (p.notifyTargets.flatMap (switching h true) ++
          [.requestUnitSize h size] ++ [] ++ p.notifyTargets.flatMap (switching h false))) :=
        .served services some (Or.inr rfl) (by simp)
      simpa using all
    | ready services some negotiated written =>
      have all : Conversation size found log h _ := .served services some negotiated written
      simpa using all
    | disconnecting => exact absurd rfl away
  | undiscovered phase =>
    rw [phase] at asked early
    rw [early (by decide)]
    cases asked
    exact .undiscovered just
  | unsubscribed phase =>
    rw [phase] at asked
    cases asked with
    | subscribing services some =>
      have all : Conversation size found log h _ := .unsubscribed services some just
      simpa using all

/-- Once no notification is waited for, everything that was wanted has been switched on. -/
theorem Subscribed.asked (done : p.Subscribed policy event q)
    (just : event.Justified found log h policy p.phase)
    (asked : Asked size found log h p.phase p.notifyTargets said) :
    ∃ cs, found cs q.notifyTargets ∧ cs ≠ [] ∧
      said = .discover h :: q.notifyTargets.flatMap (switching h true) := by
  cases done with
  | @nothingWanted cs phase some none =>
    rw [phase] at asked
    cases asked
    exact ⟨cs, just phase, some, by simp [Peer.found, none]⟩
  | lastEnabled phase =>
    rw [phase] at asked
    cases asked with
    | @subscribing cs _ services some => exact ⟨cs, services, some, rfl⟩

/-- A peer that goes on asks for what is next in the conversation. -/
theorem Proceeds.asked (moved : p.Proceeds policy event q actions) (live : p.Live)
    (holds : p.handle = some h) (sized : ∀ n, policy.unitSize = some n → n = size)
    (just : event.Justified found log h policy p.phase)
    (asked : Asked size found log h p.phase p.notifyTargets said) :
    Asked size found log h q.phase q.notifyTargets (said ++ actions.flatMap (Action.requests h)) := by
  cases moved with
  | request phase => exact absurd phase live.begun
  | linkUp phase =>
    rw [phase] at asked
    cases asked
    exact .discovering
  | @subscribe cs phase targets =>
    rw [phase] at asked
    cases asked
    have some : cs ≠ [] := by
      rintro rfl
      exact targets rfl
    have each : ((wanted policy cs).map Action.subscribe).flatMap (Action.requests h) =
        (wanted policy cs).flatMap (switching h true) := by
      rw [List.flatMap_map]
      rfl
    rw [each]
    exact .subscribing (just phase) some
  | @reject cs phase nothing =>
    rw [phase] at asked
    cases asked
    have services : found (cs.getD []) (wanted policy (cs.getD [])) := just phase
    rw [nothing] at services
    exact .disconnecting (.unsuited services)
  | negotiate done wants =>
    obtain ⟨cs, services, some, rfl⟩ := done.asked just asked
    rw [sized _ wants]
    have all : Asked size found log h _ _ _ := .negotiating services some
    simpa [Action.requests] using all
  | @ready _ s done =>
    obtain ⟨cs, services, some, rfl⟩ := done.asked just asked
    have all : Asked size found log h .ready s.notifyTargets
        (.discover h :: (s.notifyTargets.flatMap (switching h true) ++ [] ++ [])) :=
      .ready services some (Or.inl rfl) (by simp)
    simpa [Action.requests] using all
  | negotiated phase | unnegotiated phase =>
    rw [phase] at asked
    cases asked with
    | negotiating services some =>
      have all : Asked size found log h .ready p.notifyTargets (.discover h ::
          (p.notifyTargets.flatMap (switching h true) ++ [.requestUnitSize h size] ++ [])) :=
        .ready services some (Or.inr rfl) (by simp)
      simpa [Action.requests] using all
  | leave leaves => exact .disconnecting (leaves.conversation live holds just asked)
  | note | enabled | settled | late => simpa using asked

/-- When a connection ends, everything has been asked for. -/
theorem Ends.conversation {before : List Action} (ends : p.Ends event before) (live : p.Live)
    (holds : p.handle = some h) (just : event.Justified found log h policy p.phase)
    (asked : Asked size found log h p.phase p.notifyTargets said) :
    Conversation size found log h (said ++ before.flatMap (Action.requests h)) := by
  cases ends with
  | leave leaves => exact leaves.conversation live holds just asked
  | connectFailed phase =>
    rw [phase] at asked
    cases asked
    exact .unused
  | linkDown phase | lastSettled phase | disableRefused phase =>
    rw [phase] at asked
    cases asked with
    | disconnecting all => simpa using all

end Peer

end

end RadioCentral
