import RadioCentral.Proofs.LinkProtocol
import RadioCentral.Proofs.StatusReports

/-!
Delivery at the central agrees with delivery at the radio. A peer keeps the characteristics whose values
reach the caller; the radio is asked to switch each of them on and off. The two never drift apart: what
the peer keeps is what the latest requests switched on, from the discovery to the teardown and at no
other time.
-/
namespace RadioCentral

open Registry (Step)

variable {σ : Type}

/-- The phases in which the values of the notify targets reach the caller. -/
def Phase.delivers : Phase → Bool
  | .subscribing | .negotiating | .ready => true
  | .idle | .connecting | .discovering | .disconnecting | .disconnected => false

/-! ### What the peers keep -/

namespace Peer

/-- A peer delivers the values of its notify targets and no others, and none at all before they are
switched on or once they are switched off. -/
def Delivering (p : Peer) : Prop :=
  ∀ u, u ∈ p.subscribed ↔ p.phase.delivers = true ∧ ∃ t ∈ p.notifyTargets, t.uuid = u

variable {policy : LinkPolicy} {p q : Peer} {event : PeerEvent} {actions : List Action}

theorem delivering_connecting (a : Address) : Delivering { address := a, phase := .connecting } :=
  fun u => by simp [Phase.delivers]

theorem Subscribed.delivering (done : p.Subscribed policy event q) (hp : p.Delivering) (u : Uuid) :
    u ∈ q.subscribed ↔ ∃ t ∈ q.notifyTargets, t.uuid = u := by
  have now := hp u
  cases done with
  | nothingWanted phase _ none => simpa [found, none, phase, Phase.delivers] using now
  | lastEnabled phase => simpa [phase, Phase.delivers] using now

theorem Proceeds.delivering (moved : p.Proceeds policy event q actions) (hp : p.Delivering) :
    q.Delivering := by
  intro u
  have now := hp u
  cases moved with
  | request phase | linkUp phase | reject phase => simpa [phase, Phase.delivers] using now
  | @subscribe cs phase =>
    have none : u ∉ p.subscribed := by simpa [phase, Phase.delivers] using now
    simp [found, subscribing, Phase.delivers, none]
  | negotiate done | ready done => simpa [Phase.delivers] using done.delivering hp u
  | negotiated phase | unnegotiated phase => simpa [phase, Phase.delivers] using now
  | leave =>
    have only : u ∈ p.subscribed → ∃ t ∈ p.notifyTargets, t.uuid = u := fun mem => (now.1 mem).2
    simpa [leaving, Phase.delivers] using only
  | note | enabled | settled | late => exact now

structure Kept (P : Peer → Prop) : Prop where
  begins : ∀ a, P { address := a, phase := .connecting }
  linked : ∀ p h, P p → P { p with handle := h }
  moves : ∀ {policy p q event actions}, p.Proceeds policy event q actions → P p → P q

theorem kept_delivering : Kept Delivering :=
  ⟨delivering_connecting, fun _ _ hp => hp, fun moved hp => moved.delivering hp⟩

end Peer

section

variable {P : Peer → Prop} (kept : Peer.Kept P) {r : Registry}

def Registry.Every (P : Peer → Prop) (r : Registry) : Prop := ∀ a p, r.get? a = some p → P p

include kept

theorem Registry.Every.advance (every : r.Every P) (policy : LinkPolicy) (a : Address)
    (event : PeerEvent) : (r.advance policy a event).2.Every P := by
  have spec := r.advance_spec policy a event
  generalize (r.advance policy a event).1 = steps at spec
  generalize (r.advance policy a event).2 = after at spec ⊢
  intro b s there
  cases spec with
  | ignored => exact every b s there
  | @kept p q actions here moved =>
    rw [get?_putBack here moved] at there
    by_cases same : b = a
    · obtain rfl : q = s := by simpa [same] using there
      exact kept.moves moved (every a p here)
    · rw [if_neg same] at there
      exact every b s there
  | ended =>
    by_cases same : b = a
    · simp [same, get?_remove_self] at there
    · rw [get?_remove_ne same] at there
      exact every b s there

theorem Registry.Every.enroll {a : Address} (every : r.Every P) (unknown : r.contains a = false) :
    (r.enroll a).Every P := by
  intro b s there
  rw [get?_enroll unknown] at there
  by_cases same : b = a
  · rw [if_pos same] at there
    exact Option.some.inj there ▸ kept.begins a
  · rw [if_neg same] at there
    exact every b s there

theorem Registry.Every.attach {a : Address} {p : Peer} {h : Handle} (every : r.Every P)
    (here : r.get? a = some p) (phase : p.phase = .connecting) (bare : p.handle = none) :
    (r.attach a h).2.Every P := by
  intro b s there
  rw [get?_attach here bare phase] at there
  by_cases same : b = a
  · rw [if_pos same] at there
    exact Option.some.inj there ▸ kept.linked p (some h) (every a p here)
  · rw [if_neg same] at there
    exact every b s there

namespace World

theorem every_settle {R : Radio σ} {a : Address} {steps : List Step} {w : World (Recorded σ)}
    (every : w.central.registry.Every P) : (w.settle R.recorded a steps []).central.registry.Every P :=
  settle_keeps every fun _ policy event _ now => now.advance kept policy a event

theorem every_drive {R : Radio σ} {a : Address} {event : PeerEvent} {w : World (Recorded σ)}
    (every : w.central.registry.Every P) : (w.drive R.recorded a event).central.registry.Every P := by
  rw [drive_eq]
  exact every_settle kept (every.advance kept _ a event)

theorem every_turn {R : Radio σ} {x : Happening σ} {w w' : World (Recorded σ)} (turn : Turn R x w w')
    (every : w.central.registry.Every P) : w'.central.registry.Every P := by
  cases turn with
  | quiet registry | passed _ registry | written _ _ _ registry | dropped registry =>
    rw [registry]
    exact every
  | reached | disconnected => exact every_drive kept every
  | admitted unknown => exact every_settle kept (every.enroll kept unknown)
  | attached here phase bare registry =>
    rw [registry]
    exact every.attach kept here phase bare
  | failed _ registry =>
    refine every_drive kept ?_
    rw [registry]
    exact every
  | reset =>
    rw [registry_reset]
    exact fun a p here => by cases here

theorem every_outcome (R : Radio σ) (settings : Settings) (s : σ) (history : List (Happening σ)) :
    (outcome R settings s history).central.registry.Every P :=
  outcome_induction R settings s (P := fun w => w.central.registry.Every P)
    (fun a p here => by cases here) (fun _ _ _ turn every => every_turn kept turn every) history

end World

end

/-! ### What the radio was asked for -/

def Request.switch? (u : Uuid) : Request → Option Bool
  | .setNotify _ v enable => if v = u then some enable else none
  | .startScan .. | .stopScan | .discover _ | .writeDescriptor .. | .requestUnitSize .. | .write ..
  | .disconnect _ | .release _ | .invalidateCache _ => none

/-- The latest of some requests to switch the values of a characteristic. -/
def latestSwitch (u : Uuid) (said : List Request) : Option Bool :=
  (said.filterMap (Request.switch? u)).getLast?

section

variable {size : UInt16} {found : List Characteristic → List Characteristic → Prop} {log : Log}
  {h : Handle} {u : Uuid} {said : List Request} {targets : List Characteristic}

@[simp] theorem latestSwitch_nil (u : Uuid) : latestSwitch u [] = none := rfl

@[simp] theorem latestSwitch_append (u : Uuid) (said more : List Request) :
    latestSwitch u (said ++ more) = (latestSwitch u more).or (latestSwitch u said) := by
  simp [latestSwitch, List.getLast?_append]

@[simp] theorem latestSwitch_cons (u : Uuid) (request : Request) (said : List Request) :
    latestSwitch u (request :: said) = (latestSwitch u said).or (request.switch? u) := by
  have one : latestSwitch u [request] = request.switch? u := by
    cases about : request.switch? u <;> simp [latestSwitch, about]
  rw [← one, ← latestSwitch_append, List.singleton_append]

theorem latestSwitch_of_none (unrelated : ∀ request ∈ said, request.switch? u = none) :
    latestSwitch u said = none := by
  rw [latestSwitch, List.filterMap_eq_nil_iff.2 unrelated, List.getLast?_nil]

/-- All targets are switched the same way, however often an identifier occurs among them. -/
theorem latestSwitch_switching (u : Uuid) (h : Handle) (b : Bool) (targets : List Characteristic) :
    latestSwitch u (targets.flatMap (switching h b)) =
      if ∃ t ∈ targets, t.uuid = u then some b else none := by
  induction targets with
  | nil => simp
  | cons t targets ih =>
    have one : latestSwitch u (switching h b t) = if t.uuid = u then some b else none := by
      cases descriptor : t.clientConfiguration? <;> simp [switching, descriptor, Request.switch?]
    rw [List.flatMap_cons, latestSwitch_append, ih, one]
    simp only [List.exists_mem_cons_iff]
    by_cases later : ∃ t ∈ targets, t.uuid = u <;> simp [later]

/-- Writing and negotiating switch nothing. -/
theorem latestSwitch_served {negotiation writes : List Request}
    (negotiated : negotiation = [] ∨ negotiation = [.requestUnitSize h size])
    (written : ∀ request ∈ writes, ∃ c data, request = .write h c data .withResponse) :
    latestSwitch u (.discover h :: (targets.flatMap (switching h true) ++ negotiation ++ writes)) =
      if ∃ t ∈ targets, t.uuid = u then some true else none := by
  have quiet : latestSwitch u negotiation = none := by
    rcases negotiated with rfl | rfl <;> simp [Request.switch?]
  have silent : latestSwitch u writes = none := latestSwitch_of_none fun request hr => by
    obtain ⟨c, data, rfl⟩ := written request hr
    rfl
  simp [quiet, silent, latestSwitch_switching, Request.switch?]

/-- After a whole conversation nothing is switched on. -/
theorem Conversation.latestSwitch_ne (all : Conversation size found log h said) (u : Uuid) :
    latestSwitch u said ≠ some true := by
  cases all with
  | unused | discovered | undiscovered | unsuited => simp [Request.switch?]
  | @served cs targets negotiation writes services some negotiated written =>
    rw [← List.cons_append, latestSwitch_append, latestSwitch_served negotiated written,
      latestSwitch_switching]
    by_cases target : ∃ t ∈ targets, t.uuid = u <;> simp [target]
  | @unsubscribed cs targets =>
    by_cases target : ∃ t ∈ targets, t.uuid = u <;>
      simp [latestSwitch_switching, Request.switch?, target]

/-- What is asked for on the way to a phase leaves the targets on in the phases that deliver. -/
theorem Asked.latestSwitch_iff {phase : Phase} (asked : Asked size found log h phase targets said)
    (u : Uuid) : latestSwitch u said = some true ↔
      phase.delivers = true ∧ ∃ t ∈ targets, t.uuid = u := by
  cases asked with
  | connecting | discovering => simp [Request.switch?, Phase.delivers]
  | subscribing | negotiating => simp [latestSwitch_switching, Request.switch?, Phase.delivers]
  | ready _ _ negotiated written =>
    rw [latestSwitch_served negotiated written]
    simp [Phase.delivers]
  | disconnecting all => simp [all.latestSwitch_ne u, Phase.delivers]

theorem Asked.services {phase : Phase} (asked : Asked size found log h phase targets said)
    (delivers : phase.delivers = true) : ∃ cs, found cs targets := by
  cases asked with
  | subscribing services | negotiating services | ready services => exact ⟨_, services⟩
  | connecting | discovering | disconnecting => simp [Phase.delivers] at delivers

end

/-! ### What the caller is told -/

namespace World

/-- Between two times reports of a given kind were made, and no others. -/
def Tells (kind : Report → Prop) (w v : World σ) : Prop :=
  ∃ more, v.central.reports = w.central.reports ++ more ∧ ∀ r ∈ more, kind r

namespace Tells

variable {kind kind' : Report → Prop} {w v u : World σ}

theorem silent (same : v.central.reports = w.central.reports) : Tells kind w v :=
  ⟨[], by rw [same, List.append_nil], by simp⟩

theorem trans (first : Tells kind w v) (rest : Tells kind v u) : Tells kind w u := by
  obtain ⟨more, made, of⟩ := first
  obtain ⟨more', made', of'⟩ := rest
  exact ⟨more ++ more', by rw [made', made, List.append_assoc], List.forall_mem_append.2 ⟨of, of'⟩⟩

theorem mono (tells : Tells kind w v) (wider : ∀ r, kind r → kind' r) : Tells kind' w v := by
  obtain ⟨more, made, of⟩ := tells
  exact ⟨more, made, fun r hr => wider r (of r hr)⟩

end Tells

/-- Whatever follows for a peer, only its status is told. -/
theorem tells_runAll (R : Radio σ) (duties : List Duty) (w : World σ) :
    Tells (·.isStatus = true) w (w.runAll R duties) :=
  runAll_induction (P := Tells (·.isStatus = true) w)
    (fun d _ step v now => now.trans ⟨_, reports_execute R d.address step v, fun r hr => (status_said r hr).1⟩)
    (fun _ _ _ _ now => now) (.silent rfl)

/-- A happening delivers a value from an address: the radio tells of it on the handle of the peer there,
for one of the peer's notify targets and in a phase that delivers. -/
def Delivers (w : World (Recorded σ)) (x : Happening σ) (a : Address) (value : Bytes) : Prop :=
  ∃ h u p, x = .operation (.radioEvent (.characteristicChanged h u value)) ∧
    w.central.registry.get? a = some p ∧ p.handle = some h ∧ p.phase.delivers = true ∧
    ∃ t ∈ p.notifyTargets, t.uuid = u

section

variable {R : Radio σ} {w : World (Recorded σ)}

theorem reports_openAttempt (a : Address) (w : World (Recorded σ)) :
    (w.openAttempt R.recorded a).1.central.reports = w.central.reports := by
  unfold openAttempt
  split
  · split
    · rename_i waits _ _ _ dialed
      rw [initiate_accepted R.recorded waits dialed]
    · rfl
  · rfl

/-- A value that reaches the caller is of a characteristic the peer of the handle delivers. -/
theorem delivers_of_subscribed {h : Handle} {u : Uuid} {value : Bytes} {a : Address} {p : Peer}
    (orderly : w.central.registry.Orderly) (delivering : w.central.registry.Every Peer.Delivering)
    (known : w.central.registry.addressFor? h = some a) (here : w.central.registry.get? a = some p)
    (subscribed : u ∈ p.subscribed) :
    w.Delivers (.operation (.radioEvent (.characteristicChanged h u value))) a value := by
  obtain ⟨q, there, holds⟩ := orderly.indexed h a known
  obtain rfl : p = q := Option.some.inj (here.symm.trans there)
  obtain ⟨phase, target⟩ := (delivering a p here u).1 subscribed
  exact ⟨h, u, p, rfl, here, holds, phase, target⟩

theorem tells_openEvent (orderly : w.central.registry.Orderly)
    (delivering : w.central.registry.Every Peer.Delivering) (event : RadioEvent) :
    Tells (fun r => ∀ a value, r = .dataReceived a value →
        w.Delivers (.operation (.radioEvent event)) a value) w
      ((w.hear (some event)).openEvent event R.recorded).1 := by
  cases event with
  | advertisement a data =>
    simp only [openEvent]
    split <;> exact .silent rfl
  | connected | disconnected | servicesDiscovered | unitSizeChanged => exact .silent rfl
  | descriptorWritten h c value success =>
    cases result : Subscription.resultEvent? c value success <;>
      simp only [openEvent, RadioEvent.peerEvent?, result, Option.map_some, Option.map_none, onRadioEvent] <;>
      exact .silent rfl
  | characteristicChanged h u value =>
    simp only [openEvent, RadioEvent.peerEvent?, onRadioEvent, onValue]
    split
    · exact .silent rfl
    · rename_i a known
      split
      · rename_i p here
        split
        · rename_i subscribed
          refine ⟨[.dataReceived a value], rfl, ?_⟩
          simp only [List.mem_singleton, forall_eq]
          rintro _ _ ⟨⟩
          exact delivers_of_subscribed orderly delivering known here (by simpa [Peer.delivers] using subscribed)
        · exact .silent rfl
      · exact .silent rfl
  | characteristicWritten h c value status =>
    simp only [openEvent, RadioEvent.peerEvent?, onRadioEvent, onWritten]
    split
    · exact .silent rfl
    · exact ⟨[.dataSent _ value _], rfl, by simp⟩

theorem tells_opening (orderly : w.central.registry.Orderly)
    (delivering : w.central.registry.Every Peer.Delivering) (x : Happening σ) :
    Tells (fun r => ∀ a value, r = .dataReceived a value → w.Delivers x a value) w
      (w.opening R x).1 := by
  cases x with
  | radioChanges => exact .silent rfl
  | operation o =>
    cases o with
    | radioEvent event => exact tells_openEvent orderly delivering event
    | reset =>
      simp only [opening, Operation.event?, hear_none, openStep, step]
      exact .silent (by rw [central_reset])
    | write data c a =>
      simp only [opening, Operation.event?, hear_none, openStep, step, write]
      refine .silent ?_
      (repeat' split) <;> rfl
    | initiate a => exact .silent (reports_openAttempt a _)
    | dispatchNext =>
      simp only [opening, Operation.event?, hear_none, openStep, takeAttempt]
      cases w.central.dispatch.queue with
      | nil => exact .silent rfl
      | cons a queue => exact .silent (reports_openAttempt a _)
    | start | stop | disconnect | registerNotify | setNonce | setGovernor | dropDispatch | claimDispatch =>
      exact .silent rfl

/-- Whatever happens, the only values told are those that are delivered. -/
theorem tells_happen (orderly : w.central.registry.Orderly)
    (delivering : w.central.registry.Every Peer.Delivering) (x : Happening σ) :
    Tells (fun r => ∀ a value, r = .dataReceived a value → w.Delivers x a value) w (w.happen R x) := by
  rw [happen_eq]
  refine (tells_opening orderly delivering x).trans ((tells_runAll R.recorded _ _).mono fun r status => ?_)
  rintro a value rfl
  cases status

/-- A value on a handle that leads to its peer reaches the caller exactly if the peer delivers it. -/
theorem reports_characteristicChanged {h : Handle} {a : Address} {p : Peer}
    (known : w.central.registry.addressFor? h = some a) (here : w.central.registry.get? a = some p)
    (u : Uuid) (value : Bytes) :
    (w.happen R (.operation (.radioEvent (.characteristicChanged h u value)))).central.reports =
      w.central.reports ++ if u ∈ p.subscribed then [.dataReceived a value] else [] := by
  have heard (event : Option RadioEvent) : (w.hear event).central = w.central := rfl
  simp only [happen, step, onRadioEvent, onValue, heard, known, here, Peer.delivers, decide_eq_true_eq]
  split
  · rfl
  · simp [heard]

end

/-- Delivery agrees with the radio. Wherever a run has led, a peer delivers exactly its notify targets
while it subscribes, negotiates or is ready, and nothing in any other phase. If it holds a handle, given
out once, what it delivers are the characteristics whose latest switch request on that handle was to
enable them; its targets are those that were wanted at the discovery on the handle; and a value on the
handle reaches the caller if and only if it is of a characteristic that is delivered. Whatever happens
next, no other value is told: each is of a notify target of the peer that holds the handle, in one of
those phases. -/
theorem delivery_agrees (R : Radio σ) (settings : Settings) (s : σ) (history : List (Happening σ)) :
    let w := outcome R settings s history
    (∀ a p, w.central.registry.get? a = some p →
      (p.phase.delivers = true → ∀ u, u ∈ p.subscribed ↔ ∃ t ∈ p.notifyTargets, t.uuid = u) ∧
      (p.phase.delivers = false → p.subscribed.isEmpty = true) ∧
      ∀ h, p.handle = some h → w.radio.log.issued.count h ≤ 1 →
        (∀ u, u ∈ p.subscribed ↔ latestSwitch u (w.radio.log.requestsOn h) = some true) ∧
        (p.phase.delivers = true → ∃ cs, FoundOn R settings s history h cs p.notifyTargets) ∧
        ∀ u value,
          (w.happen R (.operation (.radioEvent (.characteristicChanged h u value)))).central.reports =
            w.central.reports ++ if u ∈ p.subscribed then [.dataReceived a value] else []) ∧
    ∀ x, Tells (fun r => ∀ a value, r = .dataReceived a value → w.Delivers x a value) w (w.happen R x) := by
  intro w
  have orderly : w.central.registry.Orderly := orderly_outcome R settings s history
  have delivering : w.central.registry.Every Peer.Delivering :=
    every_outcome Peer.kept_delivering R settings s history
  refine ⟨fun a p here => ?_, tells_happen orderly delivering⟩
  have now := delivering a p here
  refine ⟨fun phase u => ?_, fun phase => UuidSet.isEmpty_iff.2 fun u mem => ?_, fun h holds single => ?_⟩
  · simpa [phase] using now u
  · have delivers := ((now u).1 mem).1
    rw [phase] at delivers
    cases delivers
  · obtain ⟨-, asked⟩ := (spoken_outcome R settings s h history single).holding a p here holds
    rw [Registry.owed_nil, List.append_nil] at asked
    have known := leads_outcome R settings s history single a p here holds
    exact ⟨fun u => (now u).trans (asked.latestSwitch_iff u).symm, asked.services,
      reports_characteristicChanged known here⟩

/-- In the encounter the values of the one target reach the caller once the first peer is ready. -/
theorem delivery_agrees_in_encounter :
    let w := outcome SimulatedRadio.radio Encounter.settings {} Encounter.history
    w.radio.log.issued.count ⟨1⟩ ≤ 1 ∧ ∃ p, w.central.registry.get? ⟨"a"⟩ = some p ∧
      p.handle = some ⟨1⟩ ∧ p.phase = .ready ∧
      latestSwitch Encounter.target.uuid (w.radio.log.requestsOn ⟨1⟩) = some true ∧
      ∀ value, (w.happen SimulatedRadio.radio (.operation (.radioEvent
          (.characteristicChanged ⟨1⟩ Encounter.target.uuid value)))).central.reports =
        w.central.reports ++ [.dataReceived ⟨"a"⟩ value] := by
  have single := List.nodup_iff_count_le_one.1 (issued_nodup SimulatedRadio.numbers Encounter.settings {}
    Encounter.history (by simp [Encounter.history])) ⟨1⟩
  have kept : ((outcome SimulatedRadio.radio Encounter.settings {}
      Encounter.history).central.registry.get? ⟨"a"⟩).map (fun p =>
        (p.handle, p.phase, p.notifyTargets.map (·.uuid))) =
      some (some ⟨1⟩, .ready, [Encounter.target.uuid]) := by cbv
  obtain ⟨p, here, held⟩ := Option.map_eq_some_iff.1 kept
  simp only [Prod.mk.injEq] at held
  obtain ⟨holds, phase, targets⟩ := held
  obtain ⟨among, -, agrees⟩ := (delivery_agrees SimulatedRadio.radio Encounter.settings {}
    Encounter.history).1 ⟨"a"⟩ p here
  obtain ⟨latest, -, value⟩ := agrees ⟨1⟩ holds single
  have delivers : p.phase.delivers = true := by rw [phase]; rfl
  have subscribed : Encounter.target.uuid ∈ p.subscribed :=
    (among delivers _).2 (List.mem_map.1 (by rw [targets]; exact List.mem_singleton_self _))
  refine ⟨single, p, here, holds, phase, (latest _).1 subscribed, fun data => ?_⟩
  have told := value Encounter.target.uuid data
  rw [if_pos subscribed] at told
  exact told

end World

end RadioCentral
