import RadioCentral.Proofs.Registry.Coherence
import RadioCentral.Proofs.Run.Carrying

/-!
What peers wait for. Each wait is started by an action, is outstanding once the radio has accepted the
request behind it, and is resolved by an event; the moves of a peer leave no wait behind that is none
of these.
-/
namespace RadioCentral

inductive Wait where
  | attempt
  | link
  | discovery
  | enable (characteristic : Uuid)
  | unitSize
  | disable (characteristic : Uuid)
  | linkLoss
  deriving DecidableEq

/-- What a peer waits for in its phase. -/
def Peer.Awaits (p : Peer) : Wait → Prop
  | .attempt => p.phase = .connecting ∧ p.handle = none
  | .link => p.phase = .connecting ∧ p.handle ≠ none
  | .discovery => p.phase = .discovering
  | .enable u => p.phase = .subscribing ∧ u ∈ p.pendingEnable
  | .unitSize => p.phase = .negotiating
  | .disable u => p.phase = .disconnecting ∧ u ∈ p.pendingDisable
  | .linkLoss => p.phase = .disconnecting ∧ p.pendingDisable.isEmpty = true

def Action.starts? : Action → Option Wait
  | .connect => some .attempt
  | .discoverServices => some .discovery
  | .subscribe c => some (.enable c.uuid)
  | .requestUnitSize _ => some .unitSize
  | .unsubscribe c => some (.disable c.uuid)
  | .disconnect => some .linkLoss
  | .pauseScanning | .resumeScanning | .invalidateCache | .release | .forget | .reportConnected _
  | .reportDisconnected => none

inductive PeerEvent.Resolves : PeerEvent → Wait → Prop
  | connectFailed : Resolves .connectFailed .attempt
  | linkUp : Resolves .linkUp .link
  | linkFailed : Resolves .linkDown .link
  | linkLost : Resolves .linkDown .linkLoss
  | discovered {cs : Option (List Characteristic)} : Resolves (.servicesDiscovered cs) .discovery
  | undiscovered : Resolves .discoveryRefused .discovery
  | enabled {u : Uuid} : Resolves (.enabled u) (.enable u)
  | enableFailed {u v : Uuid} : Resolves (.enableFailed u) (.enable v)
  | unitSize {size : UInt16} : Resolves (.unitSizeReported size) .unitSize
  | unnegotiated : Resolves .negotiationUnavailable .unitSize
  | settled {u : Uuid} : Resolves (.disableSettled u) (.disable u)
  | refused {u : Uuid} : Resolves .disableRefused (.disable u)

namespace Wait

inductive BegunBy (h : Handle) : Wait → Exchange → Prop
  | link {a : Address} {route : Route} : BegunBy h .link (.dialed a route (some h))
  | discovery : BegunBy h .discovery (.asked (.discover h) true)
  | enable {d : Descriptor} :
      BegunBy h (.enable d.characteristic) (.asked (.writeDescriptor h d enableIndication) true)
  | unitSize {size : UInt16} : BegunBy h .unitSize (.asked (.requestUnitSize h size) true)
  | disable {d : Descriptor} :
      BegunBy h (.disable d.characteristic) (.asked (.writeDescriptor h d disableNotification) true)
  | linkLoss {answer : Bool} : BegunBy h .linkLoss (.asked (.disconnect h) answer)

inductive AnsweredBy (h : Handle) : Wait → RadioEvent → Prop
  | linkUp : AnsweredBy h .link (.connected h)
  | linkFailed : AnsweredBy h .link (.disconnected h)
  | discovery {services : List Service} : AnsweredBy h .discovery (.servicesDiscovered h services)
  | enable {u : Uuid} {success : Bool} :
      AnsweredBy h (.enable u) (.descriptorWritten h u enableIndication success)
  | unitSize {size : UInt16} {success : Bool} : AnsweredBy h .unitSize (.unitSizeChanged h size success)
  | disable {u : Uuid} {success : Bool} :
      AnsweredBy h (.disable u) (.descriptorWritten h u disableNotification success)
  | linkLoss : AnsweredBy h .linkLoss (.disconnected h)

end Wait

/-- The request behind a wait was accepted, and no answer has come since. -/
def Log.Unanswered (h : Handle) (x : Wait) (log : Log) : Prop :=
  ∃ before e after, log = before ++ e :: after ∧ x.BegunBy h e ∧
    ∀ event, .told event ∈ after → ¬ x.AnsweredBy h event

def Peer.Outstanding (queue : List Address) (log : Log) (p : Peer) (x : Wait) : Prop :=
  (x = .attempt ∧ p.address ∈ queue) ∨ ∃ h, p.handle = some h ∧ log.Unanswered h x

def Characteristic.Fitted (c : Characteristic) : Prop :=
  ∀ d, c.clientConfiguration? = some d → d.characteristic = c.uuid

def Log.Fitted (log : Log) : Prop :=
  ∀ h services, .told (.servicesDiscovered h services) ∈ log →
    ∀ service ∈ services, ∀ c ∈ service.characteristics, c.Fitted

def Action.Fitted : Action → Prop
  | .subscribe c | .unsubscribe c => c.Fitted
  | .pauseScanning | .resumeScanning | .connect | .discoverServices | .requestUnitSize _
  | .invalidateCache | .disconnect | .release | .forget | .reportConnected _
  | .reportDisconnected => True

section

variable {h : Handle} {x : Wait} {log more : Log}

theorem Log.Unanswered.grow (open' : log.Unanswered h x)
    (quiet : ∀ event, .told event ∈ more → ¬ x.AnsweredBy h event) :
    (log ++ more).Unanswered h x := by
  obtain ⟨before, e, after, rfl, begun, waiting⟩ := open'
  refine ⟨before, e, after ++ more, by simp, begun, fun event mem => ?_⟩
  rcases List.mem_append.1 mem with old | new
  · exact waiting event old
  · exact quiet event new

/-- Among requests only, an accepted one is not answered yet. -/
theorem Log.unanswered_of_mem {e : Exchange} (mem : e ∈ more) (begun : x.BegunBy h e)
    (silent : ∀ event, .told event ∉ more) : (log ++ more).Unanswered h x := by
  obtain ⟨before, after, rfl⟩ := List.append_of_mem mem
  refine ⟨log ++ before, e, after, by simp, begun, fun event told => ?_⟩
  exact absurd (List.mem_append_right before (List.mem_cons_of_mem e told)) (silent event)

theorem Peer.Outstanding.grow {queue queue' : List Address} {p : Peer}
    (outstanding : p.Outstanding queue log x) (kept : x = .attempt → p.address ∈ queue → p.address ∈ queue')
    (quiet : ∀ event, .told event ∈ more → ∀ h, p.handle = some h → ¬ x.AnsweredBy h event) :
    p.Outstanding queue' (log ++ more) x := by
  rcases outstanding with ⟨rfl, queued⟩ | ⟨h, holds, open'⟩
  · exact Or.inl ⟨rfl, kept rfl queued⟩
  · exact Or.inr ⟨h, holds, open'.grow fun event mem => quiet event mem h holds⟩

/-- Carrying a step out tells the central nothing new. -/
theorem Carried.silent_log {step : Registry.Step} {event : Option PeerEvent}
    (carried : Carried step more event) : ∀ told, Exchange.told told ∉ more := by
  intro told mem
  cases carried with
  | scan _ about =>
    obtain ⟨request, answer, same, -⟩ := about _ mem
    cases same
  | asked | released => simp at mem
  | subscribed switched | unsubscribed switched => cases switched <;> simp at mem
  | queued | unqueued | silent | unlinked => cases mem

/-- An action that starts a wait on a handle makes it outstanding or calls for what resolves it. -/
theorem Carried.starts {action : Action} {event : Option PeerEvent}
    (carried : Carried (.run action (some h)) more event) (fitted : action.Fitted)
    (starts : action.starts? = some x) (other : x ≠ .attempt) :
    (∃ e ∈ more, x.BegunBy h e) ∨ ∃ e ∈ event, e.Resolves x := by
  cases carried with
  | asked asks answer =>
    cases asks with
    | discover =>
      obtain rfl := Option.some.inj starts
      cases answer with
      | true => exact Or.inl ⟨_, List.mem_singleton.2 rfl, .discovery⟩
      | false => exact Or.inr ⟨_, rfl, .undiscovered⟩
    | unitSize =>
      obtain rfl := Option.some.inj starts
      cases answer with
      | true => exact Or.inl ⟨_, List.mem_singleton.2 rfl, .unitSize⟩
      | false => exact Or.inr ⟨_, rfl, .unnegotiated⟩
    | invalidateCache => cases starts
    | disconnect =>
      obtain rfl := Option.some.inj starts
      exact Or.inl ⟨_, List.mem_singleton.2 rfl, .linkLoss⟩
  | @subscribed _ c _ _ switched =>
    obtain rfl := Option.some.inj starts
    cases switched with
    | bare => exact Or.inr ⟨_, rfl, .enabled⟩
    | refused => exact Or.inr ⟨_, rfl, .enableFailed⟩
    | @written _ d target =>
      have begun := Wait.BegunBy.enable (h := h) (d := d)
      rw [fitted d target] at begun
      exact Or.inl ⟨_, List.mem_cons_of_mem _ (List.mem_singleton.2 rfl), begun⟩
  | @unsubscribed _ c _ _ switched =>
    obtain rfl := Option.some.inj starts
    cases switched with
    | bare => exact Or.inr ⟨_, rfl, .settled⟩
    | refused => exact Or.inr ⟨_, rfl, .refused⟩
    | @written _ d target =>
      have begun := Wait.BegunBy.disable (h := h) (d := d)
      rw [fitted d target] at begun
      exact Or.inl ⟨_, List.mem_cons_of_mem _ (List.mem_singleton.2 rfl), begun⟩
  | scan what => rcases what with rfl | rfl <;> cases starts
  | queued | unqueued => exact absurd (Option.some.inj starts).symm other
  | silent what =>
    rcases what with ⟨size, rfl⟩ | what
    · cases starts
    · simp only [List.mem_cons, List.not_mem_nil, or_false] at what
      rcases what with rfl | rfl | rfl <;> cases starts

end

namespace Peer

variable {policy : LinkPolicy} {p q : Peer} {event : PeerEvent} {actions : List Action} {x : Wait}

/-- An event is not refused while something waits for it. -/
theorem react_ne_none (awaits : p.Awaits x) (resolves : event.Resolves x) :
    p.react policy event ≠ .refused p := by
  cases resolves with
  | connectFailed | linkUp => simp [react, during, awaits.1]
  | linkFailed => simp [react, leave, awaits.1]
  | linkLost => simp [react, awaits.1]
  | discovered | undiscovered =>
    have phase : p.phase = .discovering := awaits
    simp [react, during, phase]
  | enabled | enableFailed | settled | refused => simp [react, during, awaits.1]
  | unitSize =>
    have phase : p.phase = .negotiating := awaits
    simp [react, onUnitSize, phase]
  | unnegotiated =>
    have phase : p.phase = .negotiating := awaits
    simp [react, during, phase]

/-- Leaving waits for one disable write for each notify target. -/
theorem awaits_leaving {disconnect : Bool} (hp : p.Sound) (away : p.phase ≠ .disconnecting)
    (pending : p.leaving.pendingDisable.isEmpty = false) (awaits : p.leaving.Awaits x) :
    ∃ action ∈ p.leavingActions disconnect, action.starts? = some x := by
  cases x with
  | disable u =>
    have mem : u ∈ p.pendingDisable.insertAll (p.notifyTargets.map (·.uuid)) := awaits.2
    rcases UuidSet.mem_insertAll.1 mem with target | old
    · obtain ⟨c, hc, rfl⟩ := List.mem_map.1 target
      exact ⟨.unsubscribe c, List.mem_append_left _ (List.mem_map_of_mem hc), rfl⟩
    · exact absurd old (UuidSet.isEmpty_iff.1 (hp.disabling away) u)
  | linkLoss =>
    have empty : p.leaving.pendingDisable.isEmpty = true := awaits.2
    rw [pending] at empty
    cases empty
  | attempt | link | enable => cases awaits.1
  | discovery | unitSize => cases awaits

/-- After a move a peer waits for what it waited for before and the event did not resolve, or for
something that the actions start. -/
theorem Proceeds.awaits (moved : p.Proceeds policy event q actions) (live : p.Live)
    (awaits : q.Awaits x) :
    (p.Awaits x ∧ ¬ event.Resolves x) ∨ ∃ action ∈ actions, action.starts? = some x := by
  cases moved with
  | request phase => exact absurd phase live.begun
  | linkUp =>
    cases x with
    | discovery => exact Or.inr ⟨.discoverServices, by simp, rfl⟩
    | attempt | link | enable | disable | linkLoss => cases awaits.1
    | unitSize => cases awaits
  | @subscribe cs phase targets =>
    cases x with
    | enable u =>
      have mem : u ∈ p.pendingEnable.insertAll ((wanted policy cs).map (·.uuid)) := awaits.2
      rcases UuidSet.mem_insertAll.1 mem with target | old
      · obtain ⟨c, hc, rfl⟩ := List.mem_map.1 target
        exact Or.inr ⟨.subscribe c, List.mem_map_of_mem hc, rfl⟩
      · exact absurd old (UuidSet.isEmpty_iff.1 (live.sound.enabling_isEmpty (by simp [phase])) u)
    | attempt | link | disable | linkLoss => cases awaits.1
    | discovery | unitSize => cases awaits
  | reject phase =>
    cases x with
    | linkLoss => exact Or.inr ⟨.disconnect, by simp, rfl⟩
    | disable u =>
      have empty := live.sound.disabling (by simp [phase])
      exact absurd awaits.2 (UuidSet.isEmpty_iff.1 empty u)
    | attempt | link | enable => cases awaits.1
    | discovery | unitSize => cases awaits
  | negotiate =>
    cases x with
    | unitSize => exact Or.inr ⟨_, List.mem_singleton.2 rfl, rfl⟩
    | attempt | link | enable | disable | linkLoss => cases awaits.1
    | discovery => cases awaits
  | ready | negotiated | unnegotiated =>
    cases x with
    | attempt | link | enable | disable | linkLoss => cases awaits.1
    | discovery | unitSize => cases awaits
  | leave leaves pending => exact Or.inr (awaits_leaving live.sound leaves.away pending awaits)
  | note phase =>
    refine Or.inl ⟨by cases x <;> exact awaits, fun resolves => ?_⟩
    cases resolves
    have negotiating : p.phase = .negotiating := awaits
    simp [negotiating] at phase
  | enabled phase =>
    cases x with
    | enable v =>
      obtain ⟨pending, other⟩ := UuidSet.mem_erase.1 awaits.2
      refine Or.inl ⟨⟨phase, pending⟩, fun resolves => ?_⟩
      cases resolves
      exact other rfl
    | attempt | link | disable | linkLoss => simp [Awaits, phase] at awaits
    | discovery | unitSize => simp [Awaits, phase] at awaits
  | @settled u phase more =>
    cases x with
    | disable v =>
      obtain ⟨pending, other⟩ := UuidSet.mem_erase.1 awaits.2
      refine Or.inl ⟨⟨phase, pending⟩, fun resolves => ?_⟩
      cases resolves
      exact other rfl
    | linkLoss =>
      have empty : (p.pendingDisable.erase u).isEmpty = true := awaits.2
      have absent : u ∉ p.pendingDisable := fun pending => by
        rw [more pending] at empty
        cases empty
      refine Or.inl ⟨⟨phase, UuidSet.isEmpty_iff.2 fun v hv => ?_⟩, by rintro ⟨⟩⟩
      refine UuidSet.isEmpty_iff.1 empty v (UuidSet.mem_erase.2 ⟨hv, ?_⟩)
      rintro rfl
      exact absent hv
    | attempt | link | enable => simp [Awaits, phase] at awaits
    | discovery | unitSize => simp [Awaits, phase] at awaits
  | late phase late =>
    refine Or.inl ⟨awaits, fun resolves => ?_⟩
    cases late with
    | requested => cases resolves
    | enabled | enableFailed =>
      cases resolves
      simp [Awaits, phase] at awaits
    | unitSize =>
      cases resolves
      simp [Awaits, phase] at awaits
    | linkDown pending =>
      cases resolves with
      | linkFailed => simp [Awaits, phase] at awaits
      | linkLost =>
        have empty : p.pendingDisable.isEmpty = true := awaits.2
        rw [pending] at empty
        cases empty

def Fitted (p : Peer) : Prop := ∀ c ∈ p.notifyTargets, c.Fitted

theorem fitted_leavingActions {disconnect : Bool} (hp : p.Fitted) :
    ∀ action ∈ p.leavingActions disconnect, action.Fitted := by
  intro action mem
  rcases List.mem_append.1 mem with target | last
  · obtain ⟨c, hc, rfl⟩ := List.mem_map.1 target
    exact hp c hc
  · split at last
    · rw [List.mem_singleton.1 last]
      trivial
    · cases last

theorem fitted_wanted {cs : List Characteristic} (services : ∀ c ∈ cs, c.Fitted) :
    ∀ c ∈ wanted policy cs, c.Fitted := fun c hc => services c (List.mem_filter.1 hc).1

/-- Only discovery brings new notify targets. -/
theorem Proceeds.fitted (moved : p.Proceeds policy event q actions) (hp : p.Fitted)
    (services : ∀ cs, event = .servicesDiscovered (some cs) → ∀ c ∈ cs, c.Fitted) :
    q.Fitted ∧ ∀ action ∈ actions, action.Fitted := by
  cases moved with
  | @subscribe cs =>
    have targets : ∀ c ∈ wanted policy cs, c.Fitted := fitted_wanted (services cs rfl)
    refine ⟨targets, fun action mem => ?_⟩
    obtain ⟨c, hc, rfl⟩ := List.mem_map.1 mem
    exact targets c hc
  | negotiate done | ready done =>
    refine ⟨?_, by simp [Action.Fitted]⟩
    cases done with
    | nothingWanted => exact fitted_wanted (services _ rfl)
    | lastEnabled => exact hp
  | leave => exact ⟨hp, fitted_leavingActions hp⟩
  | request | linkUp | reject | negotiated | unnegotiated | note | enabled | settled | late =>
    exact ⟨hp, by simp [Action.Fitted]⟩

theorem Ends.fitted {before : List Action} (ends : p.Ends event before) (hp : p.Fitted) :
    ∀ action ∈ before, action.Fitted := by
  cases ends with
  | leave => exact fitted_leavingActions hp
  | connectFailed | linkDown | lastSettled | disableRefused => simp

end Peer

/-- Whatever happens to a peer, its notify targets and the steps left to be done stay fitted. -/
theorem Registry.fitted_advance {r : Registry} (policy : LinkPolicy) (a : Address) {event : PeerEvent}
    (fitted : ∀ b p, r.get? b = some p → p.Fitted)
    (services : ∀ cs, event = .servicesDiscovered (some cs) → ∀ c ∈ cs, c.Fitted) :
    (∀ b p, (r.advance policy a event).2.get? b = some p → p.Fitted) ∧
      ∀ action handle, .run action handle ∈ (r.advance policy a event).1 → action.Fitted := by
  have spec := r.advance_spec policy a event
  generalize (r.advance policy a event).1 = steps at spec ⊢
  generalize (r.advance policy a event).2 = after at spec ⊢
  cases spec with
  | ignored => exact ⟨fitted, by simp⟩
  | @kept p q actions here moved =>
    obtain ⟨targets, asked⟩ := moved.fitted (fitted a p here) services
    refine ⟨fun b s there => ?_, fun action handle mem => ?_⟩
    · rw [get?_putBack here moved] at there
      by_cases same : b = a
      · obtain rfl : q = s := by simpa [same] using there
        exact targets
      · exact fitted b s (by simpa [same] using there)
    · obtain ⟨action', hm, same⟩ := List.mem_map.1 mem
      cases same
      exact asked _ hm
  | @ended p before here ends =>
    refine ⟨fun b s there => ?_, fun action handle mem => ?_⟩
    · rw [get?_remove] at there
      by_cases same : b = a
      · simp [same] at there
      · exact fitted b s (by simpa [same] using there)
    · simp only [List.mem_append, List.mem_map, List.mem_cons, Step.run.injEq, List.not_mem_nil,
        or_false] at mem
      rcases mem with ⟨action', hm, rfl, -⟩ | ⟨k, -, same⟩ | ⟨rfl, -⟩ | ⟨rfl, -⟩
      · exact ends.fitted (fitted a p here) _ hm
      · cases same
      · trivial
      · trivial

end RadioCentral
