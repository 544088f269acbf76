import Mathlib.Data.List.Induction
import RadioCentral.Proofs.Registry.Coherence
import RadioCentral.Proofs.Run.Settling

/-!
What an operation amounts to. It leaves every peer alone, drives one peer, admits one, gives one its
handle, writes to one, or forgets them all; only stopping is a sequence of such turns.
-/
namespace RadioCentral

open Registry (Step)

variable {σ : Type}

def RadioEvent.peerEvent? (service : Uuid) : RadioEvent → Option (Handle × PeerEvent)
  | .connected h => some (h, .linkUp)
  | .disconnected h => some (h, .linkDown)
  | .servicesDiscovered h services =>
    some (h, .servicesDiscovered (World.wantedCharacteristics service services))
  | .descriptorWritten h c value success =>
    (Subscription.resultEvent? c value success).map fun event => (h, event)
  | .unitSizeChanged h size _ => some (h, .unitSizeReported size)
  | .advertisement .. | .characteristicChanged .. | .characteristicWritten .. => none

/-- The record of the attempts to connect to an address, the accepted one last. -/
inductive Dials (a : Address) : Log → Option Handle → Prop where
  | exhausted : Dials a [] none
  | accepted (route : Route) (h : Handle) : Dials a [.dialed a route (some h)] (some h)
  | refused {log : Log} {answer : Option Handle} (route : Route) (rest : Dials a log answer) :
      Dials a (.dialed a route none :: log) answer

namespace Dials

variable {a : Address} {log : Log}

theorem silent {answer : Option Handle} (h : Dials a log answer) : ∀ event, .told event ∉ log := by
  induction h <;> simp_all

theorem mem_of_accepted {answer : Option Handle} (dials : Dials a log answer) :
    ∀ h ∈ answer, ∃ route, .dialed a route (some h) ∈ log := by
  induction dials with
  | exhausted => simp
  | accepted route => simp
  | refused _ _ ih =>
    intro h accepted
    obtain ⟨route, mem⟩ := ih h accepted
    exact ⟨route, List.mem_cons_of_mem _ mem⟩

end Dials

namespace World

/-- An event of the radio means something to the peer of an address. -/
def Reaches (w : World σ) (event : RadioEvent) (a : Address) (told : PeerEvent) : Prop :=
  ∃ h, event.peerEvent? w.central.settings.service = some (h, told) ∧
    w.central.registry.addressFor? h = some a

/-- At most the oldest attempt is taken off the queue, and it is for a given address. -/
def Popped (w w' : World σ) (a : Address) : Prop :=
  w'.central.dispatch.queue = w.central.dispatch.queue ∨
    w.central.dispatch.queue = a :: w'.central.dispatch.queue

def enter (a : Address) (w : World σ) : World σ :=
  { w with central := { w.central with registry := w.central.registry.enroll a } }

inductive Turn (R : Radio σ) : Happening σ → World (Recorded σ) → World (Recorded σ) → Prop where
  | quiet {x : Happening σ} {w w' : World (Recorded σ)} {log : Log}
      (registry : w'.central.registry = w.central.registry)
      (queue : w'.central.dispatch.queue = w.central.dispatch.queue)
      (grown : w'.radio.log = w.radio.log ++ log)
      (idle : ∀ e ∈ log, e.AboutScan ∨ ∃ event, e = .told event ∧ ∀ a told, ¬ w.Reaches event a told) :
      Turn R x w w'
  | reached {w : World (Recorded σ)} {event : RadioEvent} {a : Address} {told : PeerEvent}
      (reaches : w.Reaches event a told) :
      Turn R (.operation (.radioEvent event)) w ((w.hear (some event)).drive R.recorded a told)
  | disconnected {x : Happening σ} {w : World (Recorded σ)} (a : Address) :
      Turn R x w (w.drive R.recorded a .disconnectRequested)
  | admitted {x : Happening σ} {w : World (Recorded σ)} {a : Address} {data : Bytes}
      (unknown : w.central.registry.contains a = false) :
      Turn R x w (((w.hear (some (.advertisement a data))).enter a).settle R.recorded a
        [.run .pauseScanning none, .run .connect none] [])
  | passed {x : Happening σ} {w w' : World (Recorded σ)} {a : Address}
      (past : w.awaitsConnect a = false) (registry : w'.central.registry = w.central.registry)
      (log : w'.radio.log = w.radio.log) (queue : Popped w w' a) : Turn R x w w'
  | attached {x : Happening σ} {w w' : World (Recorded σ)} {a : Address} {p : Peer} {h : Handle}
      {log : Log} (here : w.central.registry.get? a = some p) (phase : p.phase = .connecting)
      (bare : p.handle = none) (registry : w'.central.registry = (w.central.registry.attach a h).2)
      (grown : w'.radio.log = w.radio.log ++ log) (dials : Dials a log (some h))
      (queue : Popped w w' a) : Turn R x w w'
  | failed {x : Happening σ} {w w' : World (Recorded σ)} {a : Address} {log : Log}
      (waits : w.awaitsConnect a = true) (registry : w'.central.registry = w.central.registry)
      (grown : w'.radio.log = w.radio.log ++ log) (dials : Dials a log none)
      (queue : Popped w w' a) : Turn R x w (w'.drive R.recorded a .connectFailed)
  | written {x : Happening σ} {w w' : World (Recorded σ)} {a : Address} {p : Peer} {h : Handle}
      {c : Uuid} {data : Bytes} {answer : Bool} (here : w.central.registry.get? a = some p)
      (ready : p.phase = .ready) (holds : p.handle = some h)
      (registry : w'.central.registry = w.central.registry)
      (queue : w'.central.dispatch.queue = w.central.dispatch.queue)
      (grown : w'.radio.log = w.radio.log ++ [.asked (.write h c data .withResponse) answer])
      (offered : ∃ t, p.characteristic? c = some t ∧ t.isWritable = true) : Turn R x w w'
  | reset {w : World (Recorded σ)} (order : Registry.Order) :
      Turn R (.operation (.reset order)) w (w.reset R.recorded order)
  | dropped {w w' : World (Recorded σ)} (registry : w'.central.registry = w.central.registry)
      (log : w'.radio.log = w.radio.log) (queue : w'.central.dispatch.queue = []) :
      Turn R (.operation .dropDispatch) w w'

variable (R : Radio σ) (w : World (Recorded σ))

/-- What neither the registry, nor the queue, nor the radio notices is a turn. -/
theorem turn_unnoticed {x : Happening σ} {w' : World (Recorded σ)}
    (registry : w'.central.registry = w.central.registry)
    (queue : w'.central.dispatch.queue = w.central.dispatch.queue)
    (log : w'.radio.log = w.radio.log) : Turn R x w w' := by
  have grown : w'.radio.log = w.radio.log ++ [] := by rw [log, List.append_nil]
  exact .quiet registry queue grown (by simp)

theorem turn_scan {f : Scanner → Recorded σ → Scanner × Recorded σ} (hf : Scans f) (x : Happening σ) :
    Turn R x w (w.scan f) := by
  obtain ⟨log, grown, about⟩ := log_scan hf w
  exact .quiet rfl rfl grown fun e he => Or.inl (about e he)

/-- An event that means nothing to any peer is only written down. -/
theorem turn_heard {x : Happening σ} (event : RadioEvent) {w' : World (Recorded σ)}
    (idle : ∀ a told, ¬ w.Reaches event a told)
    (registry : w'.central.registry = w.central.registry)
    (queue : w'.central.dispatch.queue = w.central.dispatch.queue)
    (grown : w'.radio.log = w.radio.log ++ [.told event]) : Turn R x w w' :=
  .quiet registry queue grown fun e he => by
    obtain rfl := List.mem_singleton.1 he
    exact Or.inr ⟨event, rfl, idle⟩

theorem turn_onHandle {event : RadioEvent} {h : Handle} {told : PeerEvent}
    (means : event.peerEvent? w.central.settings.service = some (h, told)) :
    Turn R (.operation (.radioEvent event)) w ((w.hear (some event)).onHandle R.recorded h told) := by
  cases known : w.central.registry.addressFor? h with
  | some a =>
    have same : (w.hear (some event)).onHandle R.recorded h told =
        (w.hear (some event)).drive R.recorded a told := by
      simp only [onHandle, hear, known]
    rw [same]
    exact .reached ⟨h, means, known⟩
  | none =>
    have same : (w.hear (some event)).onHandle R.recorded h told = w.hear (some event) := by
      simp only [onHandle, hear, known]
    rw [same]
    refine turn_heard R w event ?_ rfl rfl rfl
    rintro a told' ⟨h', means', known'⟩
    rw [means] at means'
    obtain ⟨rfl, -⟩ : h = h' ∧ told = told' := by simpa using means'
    rw [known] at known'
    cases known'

theorem unknown_of_admits {w : World σ} {a : Address} {data : Bytes} (admits : w.admits a data = true) :
    w.central.registry.contains a = false := by
  simp only [World.admits, Bool.and_eq_true, Bool.not_eq_true'] at admits
  exact admits.1.2

theorem turn_onAdvertisement (x : Happening σ) (a : Address) (data : Bytes) :
    Turn R x w ((w.hear (some (.advertisement a data))).onAdvertisement R.recorded a data) := by
  unfold onAdvertisement
  split
  · rename_i admits
    have unknown : w.central.registry.contains a = false := unknown_of_admits admits
    have entered := fun policy => Registry.advance_insertConnecting unknown policy
    have registry : (w.hear (some (.advertisement a data))).central.registry = w.central.registry := rfl
    simp only [transition, registry, entered]
    exact .admitted unknown
  · exact turn_heard R w _ (fun _ _ ⟨_, means, _⟩ => by cases means) rfl rfl rfl

theorem turn_onRadioEvent (event : RadioEvent) :
    Turn R (.operation (.radioEvent event)) w
      ((w.hear (some event)).onRadioEvent R.recorded event) := by
  cases event with
  | advertisement a data => exact turn_onAdvertisement R w _ a data
  | connected h | disconnected h | servicesDiscovered h services | unitSizeChanged h size success =>
    exact turn_onHandle R w rfl
  | descriptorWritten h c value success =>
    cases result : Subscription.resultEvent? c value success with
    | some told =>
      have means : (RadioEvent.descriptorWritten h c value success).peerEvent?
          w.central.settings.service = some (h, told) := by simp [RadioEvent.peerEvent?, result]
      have same := turn_onHandle R w means
      simpa only [onRadioEvent, result] using same
    | none =>
      refine turn_heard R w (.descriptorWritten h c value success) ?_ ?_ ?_ ?_
      · rintro a told ⟨h', means, -⟩
        simp [RadioEvent.peerEvent?, result] at means
      all_goals simp only [onRadioEvent, result]; rfl
  | characteristicChanged h c value =>
    refine turn_heard R w (.characteristicChanged h c value)
      (fun _ _ ⟨_, means, _⟩ => by cases means) ?_ ?_ ?_ <;>
      simp only [onRadioEvent, onValue] <;> (repeat' split) <;> rfl
  | characteristicWritten h c value status =>
    refine turn_heard R w (.characteristicWritten h c value status)
      (fun _ _ ⟨_, means, _⟩ => by cases means) ?_ ?_ ?_ <;>
      simp only [onRadioEvent, onWritten] <;> split <;> rfl

theorem log_connect (a : Address) (route : Route) (s : Recorded σ) :
    (R.recorded.connect a route s).2.log =
      s.log ++ [.dialed a route (R.recorded.connect a route s).1.toOption] := rfl

theorem dials_dialFrom (routes : List Route) (a : Address) (error : RadioError) (s : Recorded σ) :
    ∃ log : Log, (R.recorded.dialFrom a error routes s).2.log = s.log ++ log ∧
      Dials a log (R.recorded.dialFrom a error routes s).1.toOption := by
  induction routes generalizing error s with
  | nil => exact ⟨[], by simp [Radio.dialFrom], .exhausted⟩
  | cons route routes ih =>
    have written := log_connect R a route s
    unfold Radio.dialFrom
    generalize R.recorded.connect a route s = result at written ⊢
    obtain ⟨answer, s'⟩ := result
    cases answer with
    | ok h => exact ⟨_, written, .accepted route h⟩
    | error refusal =>
      obtain ⟨log, grown, dials⟩ := ih refusal s'
      refine ⟨.dialed a route none :: log, ?_, .refused route dials⟩
      have written : s'.log = s.log ++ [.dialed a route none] := written
      rw [grown, written, List.append_assoc, List.singleton_append]

theorem awaitsConnect_congr {w w' : World σ} (registry : w'.central.registry = w.central.registry)
    (a : Address) : w'.awaitsConnect a = w.awaitsConnect a := by
  simp only [awaitsConnect, registry]

theorem bare_of_awaitsConnect {w : World σ} {a : Address} (waits : w.awaitsConnect a = true) :
    ∃ p, w.central.registry.get? a = some p ∧ p.phase = .connecting ∧ p.handle = none := by
  unfold awaitsConnect at waits
  cases here : w.central.registry.get? a with
  | none => simp [here] at waits
  | some p => exact ⟨p, rfl, by simpa [here] using waits⟩

theorem initiate_past {v : World σ} {a : Address} (past : v.awaitsConnect a = false) :
    v.initiate R a = v := by
  simp only [initiate, past, Bool.false_eq_true, ↓reduceIte]

theorem initiate_refused {v : World σ} {a : Address} {refusal : RadioError} {s : σ}
    (waits : v.awaitsConnect a = true)
    (dialed : R.dial v.central.settings.routes a v.radio = (.error refusal, s)) :
    v.initiate R a = { v with radio := s }.drive R a .connectFailed := by
  simp only [initiate, waits, ↓reduceIte, dialed]

theorem initiate_accepted {v : World σ} {a : Address} {h : Handle} {s : σ}
    (waits : v.awaitsConnect a = true)
    (dialed : R.dial v.central.settings.routes a v.radio = (.ok h, s)) :
    v.initiate R a =
      { v with radio := s, central := { v.central with registry := (v.central.registry.attach a h).2 } } := by
  obtain ⟨p, here, phase, bare⟩ := bare_of_awaitsConnect waits
  simp only [initiate, waits, ↓reduceIte, dialed, handOver, Registry.attach_eq here bare phase]

/-- Handing a handle over either equips the peer that waits for it and asks for nothing, or it takes the
link down and gives the handle back, and changes nothing else. -/
theorem handOver_spec (a : Address) (h : Handle) :
    let v := w.handOver R.recorded a h
    (∃ p, w.central.registry.get? a = some p ∧ p.phase = .connecting ∧ p.handle = none ∧
        v.central = { w.central with registry := (w.central.registry.attach a h).2 } ∧
        v.central.registry.get? a = some { p with handle := some h } ∧ v.radio = w.radio) ∨
      w.awaitsConnect a = false ∧ v.central = w.central ∧ ∃ parted taken,
        v.radio.log = w.radio.log ++ [.asked (.disconnect h) parted, .asked (.release h) taken] := by
  intro v
  cases waits : w.awaitsConnect a with
  | true =>
    obtain ⟨p, here, phase, bare⟩ := bare_of_awaitsConnect waits
    have given := Registry.attach_eq (h := h) here bare phase
    have after : v = { w with central := { w.central with registry := (w.central.registry.attach a h).2 } } := by
      simp only [v, handOver, given, ↓reduceIte]
    refine Or.inl ⟨p, here, phase, bare, by rw [after], ?_, by rw [after]⟩
    obtain rfl := Registry.address_of_get? here
    rw [after, given]
    exact Registry.get?_replace_self (q := { p with handle := some h }) here
  | false =>
    have why : ∀ p, w.central.registry.get? a = some p → p.handle ≠ none ∨ p.phase ≠ .connecting := by
      intro p here
      by_cases bare : p.handle = none
      · exact Or.inr fun phase => by simp [awaitsConnect, here, bare, phase] at waits
      · exact Or.inl bare
    have kept := Registry.attach_of_refused (h := h) why
    have after : v = ((w.ask R.recorded (.disconnect h)).2.ask R.recorded (.release h)).2 := by
      simp only [v, handOver, kept, Bool.false_eq_true, ↓reduceIte]
    let parted := w.ask R.recorded (.disconnect h)
    refine Or.inr ⟨rfl, by rw [after]; rfl, parted.1, (parted.2.ask R.recorded (.release h)).1, ?_⟩
    rw [after, log_ask, log_ask, List.append_assoc]
    rfl

/-- An attempt is refused on every route, or one accepts it for a peer that can take the handle. -/
theorem dial_spec {w : World (Recorded σ)} {a : Address} (waits : w.awaitsConnect a = true) :
    ∃ (log : Log) (s : Recorded σ), s.log = w.radio.log ++ log ∧
      ((∃ refusal, R.recorded.dial w.central.settings.routes a w.radio = (.error refusal, s) ∧
        Dials a log none) ∨
      ∃ p h, R.recorded.dial w.central.settings.routes a w.radio = (.ok h, s) ∧ Dials a log (some h) ∧
        w.central.registry.get? a = some p ∧ p.phase = .connecting ∧ p.handle = none) := by
  obtain ⟨log, grown, dials⟩ :=
    dials_dialFrom R w.central.settings.routes a (.unsupported "connect") w.radio
  obtain ⟨p, here, phase, bare⟩ := bare_of_awaitsConnect waits
  refine ⟨log, _, grown, ?_⟩
  cases answer : (R.recorded.dialFrom a (.unsupported "connect") w.central.settings.routes w.radio).1 with
  | error refusal =>
    rw [answer] at dials
    exact Or.inl ⟨refusal, Prod.ext answer rfl, dials⟩
  | ok h =>
    rw [answer] at dials
    exact Or.inr ⟨p, h, Prod.ext answer rfl, dials, here, phase, bare⟩

theorem turn_initiate (x : Happening σ) (a : Address) {w w' : World (Recorded σ)}
    (registry : w'.central.registry = w.central.registry) (log : w'.radio.log = w.radio.log)
    (queue : Popped w w' a) : Turn R x w (w'.initiate R.recorded a) := by
  have waits := awaitsConnect_congr registry a
  cases waiting : w'.awaitsConnect a with
  | false =>
    rw [initiate_past R.recorded waiting]
    exact .passed (by rw [← waits, waiting]) registry log queue
  | true =>
    obtain ⟨more, s, grown, outcome⟩ := dial_spec R waiting
    rw [log] at grown
    rcases outcome with ⟨refusal, dialed, dials⟩ | ⟨p, h, dialed, dials, here, phase, bare⟩
    · rw [initiate_refused R.recorded waiting dialed]
      let told : World (Recorded σ) := { w' with radio := s }
      have registry : told.central.registry = w.central.registry := registry
      exact .failed (by rw [← waits, waiting]) registry grown dials queue
    · rw [initiate_accepted R.recorded waiting dialed]
      exact .attached (registry ▸ here) phase bare (by rw [registry]) grown dials queue

theorem turn_dispatchNext (x : Happening σ) : Turn R x w (w.dispatchNext R.recorded) := by
  unfold dispatchNext takeAttempt
  cases queued : w.central.dispatch.queue with
  | nil => exact turn_unnoticed R w rfl rfl rfl
  | cons a queue => exact turn_initiate R x a rfl rfl (Or.inr queued)

theorem turn_write (x : Happening σ) (data : Bytes) (c : Uuid) (a : Address) :
    Turn R x w (w.write R.recorded data c a).2 := by
  have nothing : Turn R x w w := turn_unnoticed R w rfl rfl rfl
  unfold write
  cases here : w.central.registry.get? a with
  | none => exact nothing
  | some p =>
    simp only
    split
    · exact nothing
    case h_2 target found =>
      obtain rfl : target.uuid = c := by
        obtain ⟨cs, -, among⟩ := Option.bind_eq_some_iff.1 found
        simpa using List.find?_some among
      split
      · exact nothing
      case isFalse writable =>
        split
        · rename_i holds
          split
          · rename_i ready
            exact .written here (by simpa [Peer.isReady] using ready) holds rfl rfl (log_ask R _ w)
              ⟨target, found, not_not.1 writable⟩
          · exact nothing
        · exact nothing

/-- Forgetting every peer gives the held handles back and does nothing else to the radio. -/
theorem log_reset (order : Registry.Order) : ∃ log : Log,
    (w.reset R.recorded order).radio.log = w.radio.log ++ log ∧ log.issued = [] ∧
      log.requests = (w.central.registry.clear order).1.map .release := by
  have all : ∀ (handles : List Handle) (v : World (Recorded σ)), ∃ log : Log,
      (handles.foldl (fun w h => (w.ask R.recorded (.release h)).2) v).radio.log =
        v.radio.log ++ log ∧ log.issued = [] ∧ log.requests = handles.map .release := by
    intro handles
    induction handles with
    | nil => exact fun v => ⟨[], by simp, rfl, rfl⟩
    | cons h handles ih =>
      intro v
      obtain ⟨log, grown, issued, requests⟩ := ih (v.ask R.recorded (.release h)).2
      refine ⟨.asked (.release h) (v.ask R.recorded (.release h)).1 :: log, ?_, issued, ?_⟩
      · rw [List.foldl_cons, grown, log_ask, List.append_assoc, List.singleton_append]
      · rw [List.map_cons, ← requests]
        rfl
  exact all (w.central.registry.clear order).1 _

theorem central_releases (handles : List Handle) (v : World (Recorded σ)) :
    (handles.foldl (fun w h => (w.ask R.recorded (.release h)).2) v).central = v.central := by
  induction handles generalizing v with
  | nil => rfl
  | cons h handles ih => exact ih _

theorem central_reset (order : Registry.Order) : (w.reset R.recorded order).central =
    { w.central with registry := {}, scanner := w.central.scanner.reset } :=
  central_releases R (w.central.registry.clear order).1 _

theorem registry_reset (order : Registry.Order) : (w.reset R.recorded order).central.registry = {} := by
  rw [central_reset]

/-- A turn only adds to the record. -/
theorem log_turn {x : Happening σ} {w w' : World (Recorded σ)} (turn : Turn R x w w') :
    w.radio.log <+: w'.radio.log := by
  cases turn with
  | quiet _ _ grown | attached _ _ _ _ grown | written _ _ _ _ _ grown =>
    rw [grown]
    exact List.prefix_append _ _
  | @reached _ event _ _ =>
    exact (List.prefix_append w.radio.log [.told event]).trans (log_drive R _ _ (w.hear (some event)))
  | disconnected => exact log_drive R _ _ _
  | @admitted _ _ a data _ =>
    exact (List.prefix_append w.radio.log [.told (.advertisement a data)]).trans
      (log_settle R a _ ((w.hear (some (.advertisement a data))).enter a))
  | passed _ _ log | dropped _ log => exact log ▸ List.prefix_refl _
  | failed _ _ grown => exact (grown ▸ List.prefix_append _ _).trans (log_drive R _ _ _)
  | reset order =>
    obtain ⟨log, grown, -⟩ := log_reset R w order
    rw [grown]
    exact List.prefix_append _ _

theorem issued_turn {x : Happening σ} {w w' : World (Recorded σ)} (turn : Turn R x w w') :
    w.radio.log.issued.Sublist w'.radio.log.issued :=
  (log_turn R turn).sublist.filterMap Exchange.issued?

theorem hear_none : w.hear none = w := by
  simp [hear]

/-- Every operation but stopping is one turn. -/
theorem turn_happen (x : Happening σ) (single : ¬ x.Stops) : Turn R x w (w.happen R x) := by
  cases x with
  | radioChanges change => exact turn_unnoticed R w rfl rfl rfl
  | operation o =>
    cases o with
    | stop order => exact absurd ⟨order, rfl⟩ single
    | radioEvent event => exact turn_onRadioEvent R w event
    | start =>
      simp only [happen, Operation.event?, hear_none]
      exact turn_scan R w (scans_start R) _
    | reset order =>
      simp only [happen, Operation.event?, hear_none]
      exact .reset order
    | disconnect a =>
      simp only [happen, Operation.event?, hear_none]
      exact .disconnected a
    | write data c a =>
      simp only [happen, Operation.event?, hear_none]
      exact turn_write R w _ data c a
    | initiate a =>
      simp only [happen, Operation.event?, hear_none]
      exact turn_initiate R _ a rfl rfl (Or.inl rfl)
    | dispatchNext =>
      simp only [happen, Operation.event?, hear_none]
      exact turn_dispatchNext R w _
    | dropDispatch =>
      simp only [happen, Operation.event?, hear_none]
      exact .dropped rfl rfl rfl
    | registerNotify | setNonce | setGovernor =>
      simp only [happen, Operation.event?, hear_none]
      exact turn_unnoticed R w rfl rfl rfl
    | claimDispatch =>
      simp only [happen, Operation.event?, hear_none]
      refine turn_unnoticed R w rfl ?_ rfl
      simp only [step, claimDispatch, Dispatch.claim]
      split <;> rfl

/-- Stopping withdraws the scan and then asks every peer to go. -/
theorem stop_keeps {P : World (Recorded σ) → Prop} {order : Registry.Order}
    (turn : ∀ v v', v.central.settings = w.central.settings →
      v'.central.settings = w.central.settings → Turn R (.operation (.stop order)) v v' → P v → P v')
    (h : P w) :
    P (w.happen R (.operation (.stop order))) ∧
      (w.happen R (.operation (.stop order))).central.settings = w.central.settings := by
  simp only [happen, Operation.event?, hear_none, step, stop]
  have first := turn w (w.scan (Scanner.stop R.recorded)) rfl rfl
    (turn_scan R w (scans_stop R) (.operation (.stop order))) h
  have settings : (w.scan (Scanner.stop R.recorded)).central.settings = w.central.settings := rfl
  generalize (w.scan (Scanner.stop R.recorded)).central.registry.addresses order = addresses
  generalize w.scan (Scanner.stop R.recorded) = w' at first settings ⊢
  induction addresses generalizing w' with
  | nil => exact ⟨first, settings⟩
  | cons a addresses ih =>
    have next := (settings_drive R.recorded a .disconnectRequested w').trans settings
    exact ih (w'.disconnect R.recorded a) (turn w' _ settings next (.disconnected a) first) next

theorem settings_onHandle (h : Handle) (event : PeerEvent) (w : World (Recorded σ)) :
    (w.onHandle R.recorded h event).central.settings = w.central.settings := by
  unfold onHandle
  split
  · exact settings_drive R.recorded _ event w
  · rfl

theorem settings_initiate (a : Address) (w : World (Recorded σ)) :
    (w.initiate R.recorded a).central.settings = w.central.settings := by
  unfold initiate
  split
  · split
    · simp only [handOver]
      split <;> rfl
    · exact settings_drive R.recorded a .connectFailed _
  · rfl

theorem settings_onRadioEvent (event : RadioEvent) (w : World (Recorded σ)) :
    (w.onRadioEvent R.recorded event).central.settings = w.central.settings := by
  cases event with
  | advertisement a data =>
    simp only [onRadioEvent, onAdvertisement]
    split
    · exact settings_settle R.recorded a _ _
    · rfl
  | connected | disconnected | servicesDiscovered | unitSizeChanged => exact settings_onHandle R _ _ w
  | descriptorWritten =>
    simp only [onRadioEvent]
    split
    · exact settings_onHandle R _ _ w
    · rfl
  | characteristicChanged =>
    simp only [onRadioEvent, onValue]
    (repeat' split) <;> rfl
  | characteristicWritten =>
    simp only [onRadioEvent, onWritten]
    split <;> rfl

/-- The settings never change. -/
theorem settings_happen (x : Happening σ) :
    (w.happen R x).central.settings = w.central.settings := by
  cases x with
  | radioChanges => rfl
  | operation o =>
    cases o with
    | stop => exact (stop_keeps R w (P := fun _ => True) (fun _ _ _ _ _ h => h) trivial).2
    | reset order =>
      simp only [happen, Operation.event?, hear_none, step]
      rw [central_reset]
    | radioEvent event => exact settings_onRadioEvent R event (w.hear (some event))
    | disconnect a =>
      exact settings_drive R.recorded a .disconnectRequested (w.hear none)
    | initiate a => exact settings_initiate R a (w.hear none)
    | dispatchNext =>
      simp only [happen, Operation.event?, hear_none, step, dispatchNext, takeAttempt]
      cases w.central.dispatch.queue with
      | nil => rfl
      | cons a queue => exact settings_initiate R a _
    | write data c a =>
      simp only [happen, step, write]
      (repeat' split) <;> rfl
    | start | registerNotify | setNonce | setGovernor | claimDispatch | dropDispatch => rfl

theorem settings_outcome (settings : Settings) (s : σ) (history : List (Happening σ)) :
    (outcome R settings s history).central.settings = settings := by
  induction history using List.reverseRecOn with
  | nil => rfl
  | append_singleton history x ih => rw [outcome_concat, settings_happen, ih]

theorem happen_keeps {P : World (Recorded σ) → Prop} {x : Happening σ}
    (turn : ∀ v v', (x.Stops ∨ v = w) → v.central.settings = w.central.settings →
      v'.central.settings = w.central.settings → Turn R x v v' → P v → P v') (h : P w) :
    P (w.happen R x) := by
  by_cases stops : x.Stops
  · obtain ⟨order, rfl⟩ := stops
    exact (stop_keeps R w (fun v v' => turn v v' (Or.inl ⟨order, rfl⟩)) h).1
  · exact turn w _ (Or.inr rfl) rfl (settings_happen R w x) (turn_happen R w x stops) h

/-- Induction over a run. A property may depend on what has happened; the turns of one happening keep
it. Only stopping takes turns from elsewhere than where the run has led. -/
theorem history_induction (settings : Settings) (s : σ)
    {P : List (Happening σ) → World (Recorded σ) → Prop} (start : P [] (fresh settings s))
    (grow : ∀ history x, P history (outcome R settings s history) →
      P (history ++ [x]) (outcome R settings s history))
    (turn : ∀ history x w w', (x.Stops ∨ w = outcome R settings s history) →
      w.central.settings = settings → w'.central.settings = settings → Turn R x w w' →
      P (history ++ [x]) w → P (history ++ [x]) w')
    (history : List (Happening σ)) : P history (outcome R settings s history) := by
  have both : P history (outcome R settings s history) ∧
      (outcome R settings s history).central.settings = settings := by
    induction history using List.reverseRecOn with
    | nil => exact ⟨start, rfl⟩
    | append_singleton history x ih =>
      rw [outcome_concat]
      refine ⟨happen_keeps R _ (fun v v' from' same next => ?_) (grow history x ih.1),
        (settings_happen R _ x).trans ih.2⟩
      exact turn history x v v' from' (same.trans ih.2) (next.trans ih.2)
  exact both.1

/-- What holds of a fresh central and is kept by every turn holds wherever a run leads. -/
theorem outcome_induction (settings : Settings) (s : σ) {P : World (Recorded σ) → Prop}
    (start : P (fresh settings s)) (turn : ∀ x w w', Turn R x w w' → P w → P w')
    (history : List (Happening σ)) : P (outcome R settings s history) :=
  history_induction R settings s (P := fun _ => P) start (fun _ _ h => h)
    (fun _ x w w' _ _ _ => turn x w w') history

theorem log_happen (x : Happening σ) : w.radio.log <+: (w.happen R x).radio.log :=
  happen_keeps R w (P := fun v => w.radio.log <+: v.radio.log)
    (fun _ _ _ _ _ turn now => now.trans (log_turn R turn)) (List.prefix_refl _)

/-- What has been written down stays. -/
theorem prefix_log (settings : Settings) (s : σ) (history more : List (Happening σ)) :
    (outcome R settings s history).radio.log <+: (outcome R settings s (history ++ more)).radio.log := by
  induction more using List.reverseRecOn with
  | nil => simp
  | append_singleton xs x ih =>
    rw [← List.append_assoc, outcome_concat]
    exact ih.trans (log_happen R _ x)

theorem count_issued_le (settings : Settings) (s : σ) (history more : List (Happening σ)) (h : Handle) :
    (outcome R settings s history).radio.log.issued.count h ≤
      (outcome R settings s (history ++ more)).radio.log.issued.count h :=
  ((prefix_log R settings s history more).sublist.filterMap Exchange.issued?).count_le h

end World

end RadioCentral
