import RadioCentral.Proofs.Admission
import RadioCentral.Proofs.Peer.Course
import RadioCentral.Proofs.Scanning
import RadioCentral.Proofs.StatusReports

/-!
Stopping a central brings it to rest. Every peer is sent away and the scan is withdrawn; from then on
peers can only go, and until the caller starts the central again nothing that happens begins anything.
-/
namespace RadioCentral

open Registry (Step)

variable {σ : Type}

def Exchange.Restful (e : Exchange) : Prop :=
  (∀ a route answer, e ≠ .dialed a route answer) ∧
    (∀ mode service answer, e ≠ .asked (.startScan mode service) answer) ∧
    ∀ h c data mode answer, e ≠ .asked (.write h c data mode) answer

theorem Exchange.restful_told (event : RadioEvent) : (Exchange.told event).Restful := by
  simp [Exchange.Restful]

theorem Exchange.restful_release (h : Handle) (answer : Bool) :
    (Exchange.asked (.release h) answer).Restful := by
  simp [Exchange.Restful]

inductive Registry.Step.Parting : Step → Prop where
  | release (h : Handle) : Parting (.release h)
  | report (handle : Option Handle) : Parting (.run .reportDisconnected handle)
  | resume (handle : Option Handle) : Parting (.run .resumeScanning handle)

namespace Peer

variable {p q : Peer} {policy : LinkPolicy} {event : PeerEvent} {actions : List Action}

/-- A peer on its way out that is still there stays on its way out and asks for nothing. -/
theorem Proceeds.of_disconnecting (moved : p.Proceeds policy event q actions)
    (phase : p.phase = .disconnecting) : q.phase = .disconnecting ∧ actions = [] := by
  obtain ⟨idle, ⟨u, -, rfl, -⟩ | ⟨-, rfl⟩⟩ := moved.lingering phase
  · exact ⟨phase, idle⟩
  · exact ⟨phase, idle⟩

end Peer

/-- Whatever a peer on its way out is told, it only goes. -/
theorem Registry.parting_advance {r : Registry} {a : Address} (policy : LinkPolicy) (event : PeerEvent)
    (leaving : ∀ p, r.get? a = some p → p.phase = .disconnecting) :
    (∀ step ∈ (r.advance policy a event).1, step.Parting) ∧
      ∀ q, (r.advance policy a event).2.get? a = some q → q.phase = .disconnecting := by
  have spec := r.advance_spec policy a event
  generalize (r.advance policy a event).1 = steps at spec ⊢
  generalize (r.advance policy a event).2 = after at spec ⊢
  cases spec with
  | ignored => exact ⟨by simp, leaving⟩
  | @kept p q actions here moved =>
    obtain ⟨phase, rfl⟩ := moved.of_disconnecting (leaving p here)
    refine ⟨by simp, fun s there => ?_⟩
    rw [get?_putBack here moved, if_pos rfl] at there
    obtain rfl : q = s := by simpa using there
    exact phase
  | @ended p before here ended =>
    obtain ⟨rfl, -⟩ := ended.lingering (leaving p here)
    refine ⟨fun step mem => ?_, fun q there => by simp [get?_remove_self] at there⟩
    simp only [List.map_nil, List.nil_append, List.mem_append, List.mem_map, List.mem_cons,
      List.not_mem_nil, or_false] at mem
    rcases mem with ⟨h, -, rfl⟩ | rfl | rfl
    · exact .release h
    · exact .report _
    · exact .resume _

/-- Sent away, a live peer without notify targets is taken out at once. -/
theorem Registry.advance_untargeted {r : Registry} {a : Address} {p : Peer} (here : r.get? a = some p)
    (sound : p.Sound) (live : p.phase.isEstablishing = true ∨ p.phase = .ready)
    (none : p.notifyTargets = []) (policy : LinkPolicy) :
    r.advance policy a .disconnectRequested =
      (p.handle.toList.map .release ++
        [.run .reportDisconnected p.handle, .run .resumeScanning p.handle], (r.remove a).2) := by
  have leaves : p.Leaves .disconnectRequested false := .requested live
  have settled : p.leaving.pendingDisable.isEmpty = true := (sound.leaving_isEmpty leaves.away).2 none
  have nothing : p.leavingActions false = [] := by simp [Peer.leavingActions, none]
  have next : p.react policy .disconnectRequested = .taken (p.leaving.finish.1, [] ++ p.finish.2) := by
    rw [Peer.react_of_leaves leaves, Peer.beginTeardown_eq, if_pos settled, nothing]
  have ended : p.Ends .disconnectRequested [] := nothing ▸ .leave leaves settled
  exact advance_of_ends here next ended rfl rfl rfl

namespace World

structure AtRest (w : World σ) : Prop where
  unwanted : w.central.scanner.requested = false
  off : w.central.scanner.active = false
  leaving : ∀ a p, w.central.registry.get? a = some p → p.phase = .disconnecting

/-- Between two times nothing is begun: no exchange begins anything, no peer is reported connected, no
peer comes and none gets ready. -/
structure Rests (w v : World (Recorded σ)) : Prop where
  asked : ∃ log : Log, v.radio.log = w.radio.log ++ log ∧ ∀ e ∈ log, e.Restful
  said : ∃ reports, v.central.reports = w.central.reports ++ reports ∧
    ∀ a size, .connected a size ∉ reports
  known : ∀ a, v.central.registry.contains a = true → w.central.registry.contains a = true
  ready : ∀ a, v.central.registry.isReady a = true → w.central.registry.isReady a = true

namespace Rests

variable {w v u : World (Recorded σ)}

theorem refl (w : World (Recorded σ)) : w.Rests w :=
  ⟨⟨[], by simp, by simp⟩, ⟨[], by simp, by simp⟩, fun _ h => h, fun _ h => h⟩

theorem trans (first : w.Rests v) (rest : v.Rests u) : w.Rests u := by
  obtain ⟨log, grown, begins⟩ := first.asked
  obtain ⟨log', grown', begins'⟩ := rest.asked
  obtain ⟨reports, made, none⟩ := first.said
  obtain ⟨reports', made', none'⟩ := rest.said
  refine ⟨⟨log ++ log', by rw [grown', grown, List.append_assoc], List.forall_mem_append.2 ⟨begins, begins'⟩⟩,
    ⟨reports ++ reports', by rw [made', made, List.append_assoc], fun a size mem => ?_⟩,
    fun a h => first.known a (rest.known a h), fun a h => first.ready a (rest.ready a h)⟩
  exact (List.mem_append.1 mem).elim (none a size) (none' a size)

theorem not_adds (rests : w.Rests v) (a : Address) : ¬ Change.Adds a ⟨w, v⟩ := by
  rintro ⟨unknown, known⟩
  rw [rests.known a known] at unknown
  cases unknown

theorem not_getsReady (rests : w.Rests v) (a : Address) (size : Option UInt16) :
    ¬ Change.GetsReady a size ⟨w, v⟩ := by
  rintro ⟨unready, p, there, ready, -⟩
  rw [rests.ready a (Registry.isReady_iff.2 ⟨p, there, ready⟩)] at unready
  cases unready

theorem path {changes : List (Change (Recorded σ))} (path : Path w changes v)
    (each : ∀ c ∈ changes, c.before.Rests c.after) : w.Rests v := by
  induction path with
  | stay w => exact refl w
  | go _ ih =>
    obtain ⟨first, others⟩ := List.forall_mem_cons.1 each
    exact first.trans (ih others)

end Rests

/-! ### At rest nothing begins -/

namespace AtRest

variable {w v : World (Recorded σ)}

theorem not_ready (rest : w.AtRest) (a : Address) : w.central.registry.isReady a ≠ true := by
  intro ready
  obtain ⟨p, here, phase⟩ := Registry.isReady_iff.1 ready
  rw [rest.leaving a p here] at phase
  cases phase

theorem not_awaitsConnect (rest : w.AtRest) (a : Address) : w.awaitsConnect a = false := by
  rw [Bool.eq_false_iff]
  intro waits
  obtain ⟨p, here, phase, -⟩ := bare_of_awaitsConnect waits
  rw [rest.leaving a p here] at phase
  cases phase

theorem not_admits (rest : w.AtRest) (a : Address) (data : Bytes) : w.admits a data = false := by
  simp [admits, rest.unwanted]

/-- A central at rest stays so, and begins nothing, where registry and scan stay as they are, only
events are written down and no peer is reported connected. -/
theorem unmoved (rest : w.AtRest) (events : List RadioEvent) (reports : List Report)
    (registry : v.central.registry = w.central.registry) (scanner : v.central.scanner = w.central.scanner)
    (log : v.radio.log = w.radio.log ++ events.map .told)
    (said : v.central.reports = w.central.reports ++ reports)
    (unconnected : ∀ a size, .connected a size ∉ reports) : w.Rests v ∧ v.AtRest := by
  refine ⟨⟨⟨_, log, fun e he => ?_⟩, ⟨reports, said, unconnected⟩, ?_, ?_⟩, ?_⟩
  · obtain ⟨event, -, rfl⟩ := List.mem_map.1 he
    exact Exchange.restful_told event
  · exact fun a h => registry ▸ h
  · exact fun a h => registry ▸ h
  · exact ⟨by rw [scanner]; exact rest.unwanted, by rw [scanner]; exact rest.off,
      by rw [registry]; exact rest.leaving⟩

/-- What central and record do not notice leaves a central at rest. -/
theorem unnoticed (rest : w.AtRest) (registry : v.central.registry = w.central.registry)
    (scanner : v.central.scanner = w.central.scanner) (log : v.radio.log = w.radio.log)
    (reports : v.central.reports = w.central.reports) : w.Rests v ∧ v.AtRest :=
  rest.unmoved [] [] registry scanner (by simp [log]) (by simp [reports]) (by simp)

theorem heard (rest : w.AtRest) (event : RadioEvent) :
    w.Rests (w.hear (some event)) ∧ (w.hear (some event)).AtRest :=
  rest.unmoved [event] [] rfl rfl rfl (by simp [hear]) (by simp)

theorem reported (rest : w.AtRest) (event : RadioEvent) {r : Report} (other : r.isStatus = false) :
    w.Rests ((w.hear (some event)).report r) ∧ ((w.hear (some event)).report r).AtRest := by
  refine rest.unmoved [event] [r] rfl rfl rfl rfl fun a size mem => ?_
  rw [← List.mem_singleton.1 mem] at other
  cases other

theorem scan_stop (rest : w.AtRest) (R : Radio σ) : w.scan (Scanner.stop R.recorded) = w := by
  obtain ⟨⟨settings, registry, ⟨mode, service, requested, active⟩, notify, nonce, governor, dispatch, reports⟩,
    radio⟩ := w
  obtain ⟨unwanted, off, -⟩ := rest
  simp only at unwanted off
  subst unwanted off
  rfl

theorem write (rest : w.AtRest) (R : Radio σ) (data : Bytes) (c : Uuid) (a : Address) :
    (w.write R.recorded data c a).2 = w := by
  unfold World.write
  cases here : w.central.registry.get? a with
  | none => rfl
  | some p =>
    have unready : p.isReady = false := by simp [Peer.isReady, rest.leaving a p here]
    simp only [unready, Bool.false_eq_true, ↓reduceIte]
    (repeat' split) <;> rfl

theorem reset (R : Radio σ) (order : Registry.Order) (w : World (Recorded σ)) :
    w.Rests (w.reset R.recorded order) ∧ (w.reset R.recorded order).AtRest := by
  have releases (handles : List Handle) (v : World (Recorded σ)) :
      v.Rests (handles.foldl (fun w h => (w.ask R.recorded (.release h)).2) v) := by
    induction handles generalizing v with
    | nil => exact .refl v
    | cons h handles ih =>
      have first : v.Rests (v.ask R.recorded (.release h)).2 :=
        ⟨⟨_, log_ask R (.release h) v, by simp [Exchange.restful_release]⟩, ⟨[], by simp [ask], by simp⟩,
          fun _ known => known, fun _ ready => ready⟩
      exact first.trans (ih _)
  have cleared : w.Rests { w with central := { w.central with
      registry := {}, scanner := w.central.scanner.reset } } :=
    ⟨⟨[], by simp, by simp⟩, ⟨[], by simp, by simp⟩, by simp [Registry.contains, Registry.get?],
      by simp [Registry.isReady, Registry.get?]⟩
  refine ⟨cleared.trans (releases (w.central.registry.clear order).1 _), ?_⟩
  exact ⟨by rw [central_reset]; rfl, by rw [central_reset]; rfl, fun a p here => by
    rw [registry_reset] at here
    cases here⟩

theorem openEvent (rest : w.AtRest) (R : Radio σ) (event : RadioEvent) :
    w.Rests ((w.hear (some event)).openEvent event R.recorded).1 ∧
      ((w.hear (some event)).openEvent event R.recorded).1.AtRest ∧
      ∀ d ∈ ((w.hear (some event)).openEvent event R.recorded).2, d.steps = [] := by
  obtain ⟨rests, still⟩ := rest.heard event
  cases event with
  | advertisement a data =>
    have refused : (w.hear (some (.advertisement a data))).admits a data = false := still.not_admits a data
    simp only [World.openEvent, refused, Bool.false_eq_true, ↓reduceIte]
    exact ⟨rests, still, by simp⟩
  | connected h | disconnected h | servicesDiscovered h services | unitSizeChanged h size success =>
    exact ⟨rests, still, by simp [World.openEvent, RadioEvent.peerEvent?, Duty.tell]⟩
  | descriptorWritten h c value success =>
    cases result : Subscription.resultEvent? c value success with
    | some told =>
      simp only [World.openEvent, RadioEvent.peerEvent?, result, Option.map_some]
      exact ⟨rests, still, by simp [Duty.tell]⟩
    | none =>
      simp only [World.openEvent, RadioEvent.peerEvent?, result, Option.map_none, onRadioEvent]
      exact ⟨rests, still, by simp⟩
  | characteristicChanged h c value =>
    simp only [World.openEvent, RadioEvent.peerEvent?, onRadioEvent, onValue]
    split
    · exact ⟨rests, still, by simp⟩
    · split
      · split
        · exact ⟨(rest.reported _ rfl).1, (rest.reported _ rfl).2, by simp⟩
        · exact ⟨rests, still, by simp⟩
      · exact ⟨rests, still, by simp⟩
  | characteristicWritten h c value status =>
    simp only [World.openEvent, RadioEvent.peerEvent?, onRadioEvent, onWritten]
    split
    · exact ⟨rests, still, by simp⟩
    · exact ⟨(rest.reported _ rfl).1, (rest.reported _ rfl).2, by simp⟩

theorem opening (rest : w.AtRest) (R : Radio σ) {x : Happening σ} (other : x ≠ .operation .start) :
    w.Rests (w.opening R x).1 ∧ (w.opening R x).1.AtRest ∧ ∀ d ∈ (w.opening R x).2, d.steps = [] := by
  have idle : w.Rests w ∧ w.AtRest ∧ ∀ d ∈ ([] : List Duty), d.steps = [] := ⟨.refl w, rest, by simp⟩
  have aside {v : World (Recorded σ)} (registry : v.central.registry = w.central.registry)
      (scanner : v.central.scanner = w.central.scanner) (log : v.radio.log = w.radio.log)
      (reports : v.central.reports = w.central.reports) :
      w.Rests v ∧ v.AtRest ∧ ∀ d ∈ ([] : List Duty), d.steps = [] :=
    ⟨(rest.unnoticed registry scanner log reports).1, (rest.unnoticed registry scanner log reports).2, by simp⟩
  cases x with
  | radioChanges change => exact aside rfl rfl rfl rfl
  | operation o =>
    cases o with
    | start => exact absurd rfl other
    | radioEvent event => exact rest.openEvent R event
    | stop =>
      simp only [World.opening, Operation.event?, hear_none, openStep, rest.scan_stop R]
      exact ⟨.refl w, rest, by simp [Duty.tell]⟩
    | reset order =>
      simp only [World.opening, Operation.event?, hear_none, openStep, step]
      exact ⟨(reset R order w).1, (reset R order w).2, by simp⟩
    | disconnect a =>
      simp only [World.opening, Operation.event?, hear_none, openStep]
      exact ⟨.refl w, rest, by simp [Duty.tell]⟩
    | write data c a =>
      simp only [World.opening, Operation.event?, hear_none, openStep, step, rest.write R]
      exact idle
    | initiate a =>
      simp only [World.opening, Operation.event?, hear_none, openStep, openAttempt, rest.not_awaitsConnect,
        Bool.false_eq_true, ↓reduceIte]
      exact idle
    | dispatchNext =>
      simp only [World.opening, Operation.event?, hear_none, openStep, takeAttempt]
      cases w.central.dispatch.queue with
      | nil => exact idle
      | cons a queue =>
        have past := rest.not_awaitsConnect a
        simp only [awaitsConnect] at past
        simp only [openAttempt, awaitsConnect, past, Bool.false_eq_true, ↓reduceIte]
        exact aside rfl rfl rfl rfl
    | registerNotify | setNonce | setGovernor | dropDispatch =>
      simp only [World.opening, Operation.event?, hear_none]
      exact aside rfl rfl rfl rfl
    | claimDispatch =>
      simp only [World.opening, Operation.event?, hear_none, openStep, step, claimDispatch, Dispatch.claim]
      split <;> exact aside rfl rfl rfl rfl

/-- The steps of a peer that goes leave a central at rest and call for no event. -/
theorem execute (rest : w.AtRest) (R : Radio σ) (a : Address) {step : Step} (parting : step.Parting) :
    w.Rests (w.execute R.recorded a step).2 ∧ (w.execute R.recorded a step).2.AtRest ∧
      (w.execute R.recorded a step).1 = none := by
  cases parting with
  | release h =>
    exact ⟨⟨⟨_, log_ask R (.release h) w, by simp [Exchange.restful_release]⟩, ⟨[], by simp [World.execute, ask],
      by simp⟩, fun _ known => known, fun _ ready => ready⟩, ⟨rest.unwanted, rest.off, rest.leaving⟩, rfl⟩
  | report handle =>
    obtain ⟨rests, still⟩ := rest.unmoved (v := w.report (.disconnected a)) [] [.disconnected a] rfl rfl
      (by simp [World.report]) rfl (by simp)
    exact ⟨rests, still, rfl⟩
  | resume handle =>
    have same : w.execute R.recorded a (.run .resumeScanning handle) = (none, w) := by
      simp [World.execute, perform, World.scan, Scanner.resume, rest.unwanted]
    rw [same]
    exact ⟨.refl w, rest, rfl⟩

theorem transition (rest : w.AtRest) (R : Radio σ) (a : Address) (event : PeerEvent) :
    w.Rests (w.transition R.recorded a event).2 ∧ (w.transition R.recorded a event).2.AtRest ∧
      ∀ step ∈ (w.transition R.recorded a event).1, step.Parting := by
  obtain ⟨parting, leaving⟩ :=
    w.central.registry.parting_advance (w.policy R.recorded) event (rest.leaving a)
  have known := (Registry.narrows_advance (w.policy R.recorded) a event w.central.registry).known
  have all : ∀ b p, (w.transition R.recorded a event).2.central.registry.get? b = some p →
      p.phase = .disconnecting := by
    intro b p there
    by_cases same : b = a
    · exact leaving p (same ▸ there)
    · have there : (w.central.registry.advance (w.policy R.recorded) a event).2.get? b = some p := there
      rw [Registry.get?_advance_ne same] at there
      exact rest.leaving b p there
  have still : (w.transition R.recorded a event).2.AtRest := ⟨rest.unwanted, rest.off, all⟩
  exact ⟨⟨⟨[], by simp [World.transition], by simp⟩, ⟨[], by simp [World.transition], by simp⟩, known,
    fun b ready => absurd ready (still.not_ready b)⟩, still, parting⟩

theorem settling (rest : w.AtRest) (R : Radio σ) (a : Address) (events : List PeerEvent) :
    (∀ c ∈ w.settling R.recorded a [] events, c.before.Rests c.after) ∧
      (w.settle R.recorded a [] events).AtRest := by
  have settled : (∀ c ∈ w.settling R.recorded a [] events, c.before.Rests c.after) ∧
      ((w.settle R.recorded a [] events).AtRest ∧ ∀ step ∈ ([] : List Step), step.Parting) :=
    settling_induction (I := fun steps _ v => v.AtRest ∧ ∀ step ∈ steps, step.Parting)
      (fun step steps events v now => by
        obtain ⟨first, others⟩ := List.forall_mem_cons.1 now.2
        obtain ⟨rests, still, -⟩ := now.1.execute R a first
        exact ⟨rests, still, others⟩)
      (fun event events v now => now.1.transition R a event) ⟨rest, by simp⟩
  exact ⟨settled.1, settled.2.1⟩

/-- Until the caller starts it again, a central at rest stays so, and nothing that happens begins
anything. -/
theorem changes (rest : w.AtRest) (R : Radio σ) {x : Happening σ} (other : x ≠ .operation .start) :
    (∀ c ∈ w.changes R x, c.before.Rests c.after) ∧ (w.happen R x).AtRest := by
  obtain ⟨first, begun, bare⟩ := rest.opening R other
  obtain ⟨each, still⟩ := journey_induction (R := R.recorded) (Q := Rests) (P := AtRest)
    (fun d hd v rest => by
      have settled := rest.settling R d.address d.events
      rw [← bare d hd] at settled
      exact settled) begun
  rw [happen_eq]
  exact ⟨List.forall_mem_cons.2 ⟨first, each⟩, still⟩

end AtRest

/-! ### Stopping -/

section

variable {R : Radio σ} {a b : Address} {w : World (Recorded σ)}

/-- A scan that is off and not wanted is left alone by every step. -/
theorem scanner_execute_withdrawn (unwanted : w.central.scanner.requested = false)
    (off : w.central.scanner.active = false) (step : Step) :
    (w.execute R.recorded a step).2.central.scanner = w.central.scanner := by
  by_cases other : ∀ handle, step ≠ .run .pauseScanning handle ∧ step ≠ .run .resumeScanning handle
  · exact scanner_execute R.recorded a w other
  · simp only [not_forall, not_and_or, not_not] at other
    obtain ⟨handle, rfl | rfl⟩ := other
    · simp [execute, perform, scan, Scanner.pause, Scanner.halt, off]
    · simp only [execute, perform, scan, Scanner.resume, unwanted]
      split <;> rfl

theorem scanner_runAll_withdrawn (unwanted : w.central.scanner.requested = false)
    (off : w.central.scanner.active = false) (duties : List Duty) :
    (w.runAll R.recorded duties).central.scanner = w.central.scanner := by
  refine runAll_induction (P := fun v => v.central.scanner = w.central.scanner) (fun d _ step v now => ?_)
    (fun _ _ _ _ now => now) rfl
  exact (scanner_execute_withdrawn (by rw [now]; exact unwanted) (by rw [now]; exact off) step).trans now

theorem log_runAll (duties : List Duty) (w : World (Recorded σ)) :
    w.radio.log <+: (w.runAll R.recorded duties).radio.log := by
  refine runAll_induction (R := R.recorded) (P := fun v => w.radio.log <+: v.radio.log)
    (fun d _ step v now => ?_) (fun _ _ _ _ now => now) (List.prefix_refl _)
  obtain ⟨log, grown, -⟩ := carried_execute R d.address step v
  rw [grown]
  exact now.trans (List.prefix_append _ _)

/-- Duties leave the peers they are not for alone. -/
theorem get?_runAll_ne {duties : List Duty} (others : ∀ d ∈ duties, d.address ≠ b) (w : World (Recorded σ)) :
    (w.runAll R.recorded duties).central.registry.get? b = w.central.registry.get? b := by
  refine runAll_induction (P := fun v => v.central.registry.get? b = w.central.registry.get? b)
    (fun d _ step v now => ?_) (fun d mem event v now => ?_) rfl
  · rw [registry_execute]
    exact now
  · exact (Registry.get?_advance_ne (Ne.symm (others d mem))).trans now

/-- Every known peer has its turn in a stop: it is sent away as it was before, and left alone after
that. -/
theorem sent_away_stop (order : Registry.Order) (unique : w.central.registry.known.Nodup)
    (known : w.central.registry.contains a = true) :
    ∃ u : World (Recorded σ), u.central.registry.get? a = w.central.registry.get? a ∧
      w.radio.log <+: u.radio.log ∧
      (w.happen R (.operation (.stop order))).central.registry.get? a =
        (u.disconnect R.recorded a).central.registry.get? a ∧
      (u.disconnect R.recorded a).radio.log <+: (w.happen R (.operation (.stop order))).radio.log := by
  have perm := Registry.addresses_perm order w.central.registry
  obtain ⟨front, back, split⟩ := List.append_of_mem (perm.mem_iff.2 (Registry.mem_known.2 known))
  obtain ⟨-, distinct, apart⟩ := List.nodup_append.1 (split ▸ perm.nodup_iff.2 unique)
  have before : ∀ d ∈ front.map (Duty.tell · .disconnectRequested), d.address ≠ a := by
    intro d hd
    obtain ⟨b, hb, rfl⟩ := List.mem_map.1 hd
    exact apart b hb a List.mem_cons_self
  have after : ∀ d ∈ back.map (Duty.tell · .disconnectRequested), d.address ≠ a := by
    intro d hd
    obtain ⟨b, hb, rfl⟩ := List.mem_map.1 hd
    rintro rfl
    exact (List.nodup_cons.1 distinct).1 hb
  let stopped := w.scan (Scanner.stop R.recorded)
  let u := stopped.runAll R.recorded (front.map (Duty.tell · .disconnectRequested))
  have whole : w.happen R (.operation (.stop order)) =
      (u.disconnect R.recorded a).runAll R.recorded (back.map (Duty.tell · .disconnectRequested)) := by
    rw [happen_eq]
    simp only [opening, Operation.event?, hear_none, openStep, split, List.map_append, List.map_cons,
      runAll, List.foldl_append, List.foldl_cons]
    rfl
  have begun : w.radio.log <+: stopped.radio.log := by
    obtain ⟨log, grown, -⟩ := log_scan (scans_stop R) w
    exact grown ▸ List.prefix_append _ _
  exact ⟨u, get?_runAll_ne before stopped, begun.trans (log_runAll _ stopped),
    by rw [whole, get?_runAll_ne after], by rw [whole]; exact log_runAll _ _⟩

/-- Right after a stop the central is at rest. -/
theorem atRest_stop {order : Registry.Order} (orderly : w.central.registry.Orderly)
    (still : (w.happen R (.operation (.stop order))).central.registry.Orderly) :
    (w.happen R (.operation (.stop order))).AtRest := by
  let stopped := w.scan (Scanner.stop R.recorded)
  have off : stopped.central.scanner.active = false := active_halt _ w.radio R.recorded
  have unwanted : stopped.central.scanner.requested = false := by
    simp only [stopped, scan, Scanner.stop, Scanner.halt]
    split <;> rfl
  have scanner : (w.happen R (.operation (.stop order))).central.scanner = stopped.central.scanner := by
    rw [happen_eq]
    simp only [opening, Operation.event?, hear_none, openStep]
    exact scanner_runAll_withdrawn unwanted off _
  refine ⟨by rw [scanner, unwanted], by rw [scanner, off], fun a p there => ?_⟩
  have known : w.central.registry.contains a = true := by
    have shrinks := (runAll_shrinks R.recorded (w.opening R (.operation (.stop order))).2
      (w.opening R (.operation (.stop order))).1).1 a
    rw [← happen_eq] at shrinks
    have known := shrinks (Registry.contains_iff.2 ⟨p, there⟩)
    simp only [opening, Operation.event?, hear_none, openStep] at known
    exact known
  obtain ⟨u, -, -, same, -⟩ := sent_away_stop (R := R) order orderly.unique known
  obtain ⟨early, unready⟩ := away_disconnect R a u p (same ▸ there)
  have live := still.live a p there
  have begun := live.begun
  have here := live.there
  revert early unready begun here
  cases p.phase <;> simp [Phase.isEstablishing]

/-- A peer without notify targets goes at once when it is sent away, and its handle is given back. -/
theorem disconnect_untargeted {p : Peer} (here : w.central.registry.get? a = some p) (sound : p.Sound)
    (live : p.phase.isEstablishing = true ∨ p.phase = .ready) (none : p.notifyTargets = []) :
    (w.disconnect R.recorded a).central.registry.get? a = Option.none ∧
      ∀ h ∈ p.handle, ∃ answer,
        w.radio.log ++ [.asked (.release h) answer] <+: (w.disconnect R.recorded a).radio.log := by
  have gone := w.central.registry.advance_untargeted here sound live none (w.policy R.recorded)
  have steps : (w.transition R.recorded a .disconnectRequested).1 = p.handle.toList.map .release ++
      [.run .reportDisconnected p.handle, .run .resumeScanning p.handle] := congrArg Prod.fst gone
  have removed : (w.transition R.recorded a .disconnectRequested).2.central.registry.get? a = Option.none :=
    (congrArg (fun r => r.2.get? a) gone).trans (Registry.get?_remove_self _ _)
  have driven := drive_eq R.recorded a .disconnectRequested w
  rw [steps] at driven
  constructor
  · rw [disconnect, driven]
    have shrinks := (runAll_shrinks R.recorded [{ address := a, steps := p.handle.toList.map .release ++
      [.run .reportDisconnected p.handle, .run .resumeScanning p.handle] }]
      (w.transition R.recorded a .disconnectRequested).2).1 a
    simpa [Registry.contains, removed, runAll, Duty.run] using shrinks
  · intro h held
    rw [Option.mem_def] at held
    rw [disconnect, driven, held, Option.toList_some, List.map_singleton, List.singleton_append, settle]
    let left := (w.transition R.recorded a .disconnectRequested).2
    exact ⟨(left.ask R.recorded (.release h)).1, log_settle R a _ (left.ask R.recorded (.release h)).2⟩

/-- As long as the caller does not start it again, a central at rest stays so. -/
theorem AtRest.outcome {settings : Settings} {s : σ} {history : List (Happening σ)}
    (rest : (outcome R settings s history).AtRest) {after : List (Happening σ)}
    (unstarted : .operation .start ∉ after) :
    (outcome R settings s history).Rests (World.outcome R settings s (history ++ after)) ∧
      (World.outcome R settings s (history ++ after)).AtRest := by
  induction after using List.reverseRecOn with
  | nil =>
    rw [List.append_nil]
    exact ⟨.refl _, rest⟩
  | append_singleton after x ih =>
    simp only [List.mem_append, List.mem_singleton, not_or] at unstarted
    obtain ⟨rests, still⟩ := ih unstarted.1
    obtain ⟨each, next⟩ := still.changes R (Ne.symm unstarted.2)
    rw [← List.append_assoc, outcome_concat]
    exact ⟨rests.trans (.path (path_changes R _ x) each), next⟩

/-- Stopping brings a central to rest. Wherever a run has led, right after a stop no scan is wanted or
going on, every peer that is left is on its way out, and every peer that was live without notify
targets is gone and its handle given back. Whatever happens then, as long as the caller does not start
the central again it stays at rest: there is no connect request, no request to scan and no write, no
peer is reported connected, and none comes or gets ready, not even for a moment. -/
theorem stop_brings_to_rest (R : Radio σ) (settings : Settings) (s : σ) (order : Registry.Order)
    (before after : List (Happening σ)) (unstarted : .operation .start ∉ after) :
    let w := outcome R settings s before
    let v := outcome R settings s (before ++ [.operation (.stop order)])
    let u := outcome R settings s (before ++ [.operation (.stop order)] ++ after)
    v.AtRest ∧
    (∀ a p, w.central.registry.get? a = some p → p.phase.isEstablishing = true ∨ p.phase = .ready →
      p.notifyTargets = [] → v.central.registry.get? a = none ∧
        ∀ h ∈ p.handle, ∃ answer log, v.radio.log = w.radio.log ++ log ∧ .asked (.release h) answer ∈ log) ∧
    v.Rests u ∧ u.AtRest ∧
    ∀ earlier x later, after = earlier ++ x :: later →
      ∀ c ∈ (outcome R settings s (before ++ [.operation (.stop order)] ++ earlier)).changes R x,
        c.before.Rests c.after ∧ ∀ a, ¬ c.Adds a ∧ ∀ size, ¬ c.GetsReady a size := by
  intro w v u
  have orderly := orderly_outcome R settings s before
  have still := orderly_outcome R settings s (before ++ [.operation (.stop order)])
  rw [outcome_concat] at still
  have stopped : v = w.happen R (.operation (.stop order)) := outcome_concat R settings s before _
  have rest : v.AtRest := by
    rw [stopped]
    exact atRest_stop orderly still
  refine ⟨rest, fun a p here live none => ?_, (rest.outcome unstarted).1, (rest.outcome unstarted).2, ?_⟩
  · obtain ⟨t, same, begun, left, grown⟩ :=
      sent_away_stop (R := R) order orderly.unique (Registry.contains_iff.2 ⟨p, here⟩)
    obtain ⟨gone, released⟩ := disconnect_untargeted (R := R) (same.trans here)
      (orderly.live a p here).sound live none
    rw [stopped, left]
    refine ⟨gone, fun h held => ?_⟩
    obtain ⟨answer, asked⟩ := released h held
    obtain ⟨earlier, before'⟩ := begun
    obtain ⟨later, whole⟩ := asked.trans grown
    refine ⟨answer, earlier ++ [.asked (.release h) answer] ++ later, ?_, by simp⟩
    rw [← whole, ← before']
    simp only [List.append_assoc]
    rfl
  · rintro earlier x later rfl c made
    simp only [List.mem_append, List.mem_cons, not_or] at unstarted
    obtain ⟨-, at'⟩ := rest.outcome unstarted.1
    have rests := (at'.changes R (Ne.symm unstarted.2.1)).1 c made
    exact ⟨rests, fun a => ⟨rests.not_adds a, rests.not_getsReady a⟩⟩

end

def crowd : List (Happening SimulatedRadio) :=
  Encounter.history ++ [.operation (.radioEvent (.advertisement ⟨"c"⟩ invitation)), .operation .dispatchNext]

def aftermath : List (Happening SimulatedRadio) :=
  [.operation (.initiate ⟨"c"⟩), .operation (.radioEvent (.advertisement ⟨"b"⟩ invitation)),
    .operation (.write [1] Encounter.target.uuid ⟨"a"⟩),
    .operation (.radioEvent (.descriptorWritten ⟨1⟩ Encounter.target.uuid disableNotification true))]

theorem stop_brings_crowd_to_rest :
    let w := outcome SimulatedRadio.radio Encounter.settings {} crowd
    let v := outcome SimulatedRadio.radio Encounter.settings {} (crowd ++ [.operation (.stop .admission)])
    let u := outcome SimulatedRadio.radio Encounter.settings {} (crowd ++ [.operation (.stop .admission)] ++ aftermath)
    w.central.phase? ⟨"a"⟩ = some .ready ∧ w.central.phase? ⟨"c"⟩ = some .connecting ∧
      v.AtRest ∧ v.central.phase? ⟨"a"⟩ = some .disconnecting ∧ v.central.registry.get? ⟨"c"⟩ = none ∧
      (∃ answer log, v.radio.log = w.radio.log ++ log ∧ .asked (.release ⟨3⟩) answer ∈ log) ∧
      v.Rests u ∧ u.AtRest ∧ u.central.isIdle = true := by
  have unstarted : .operation .start ∉ aftermath := by simp [aftermath]
  have ready : (outcome SimulatedRadio.radio Encounter.settings {} crowd).central.phase? ⟨"a"⟩ =
      some .ready := by cbv
  have linked : (outcome SimulatedRadio.radio Encounter.settings {} crowd).central.registry.get? ⟨"c"⟩ =
      some { address := ⟨"c"⟩, phase := .connecting, handle := some ⟨3⟩ } := by cbv
  have leaving : (outcome SimulatedRadio.radio Encounter.settings {}
      (crowd ++ [.operation (.stop .admission)])).central.phase? ⟨"a"⟩ = some .disconnecting := by cbv
  have idle : (outcome SimulatedRadio.radio Encounter.settings {}
      (crowd ++ [.operation (.stop .admission)] ++ aftermath)).central.isIdle = true := by cbv
  obtain ⟨rest, gone, rests, still, -⟩ :=
    stop_brings_to_rest SimulatedRadio.radio Encounter.settings {} .admission crowd aftermath unstarted
  obtain ⟨none, released⟩ := gone ⟨"c"⟩ _ linked (Or.inl rfl) rfl
  exact ⟨ready, by simp [Central.phase?, linked], rest, leaving, none, released ⟨3⟩ rfl, rests, still, idle⟩

end World

end RadioCentral
