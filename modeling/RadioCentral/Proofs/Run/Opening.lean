import RadioCentral.Proofs.Run.Turn

/-!
How an operation begins. It changes the central at once and leaves duties: events to be applied to
one peer after the other, with all that follows from them. Everything an operation does is its opening
and the running of its duties.
-/
namespace RadioCentral

open Registry (Step)

variable {σ : Type}

/-- What is still to be done for the peer of an address. -/
structure Duty where
  address : Address
  steps : List Step := []
  events : List PeerEvent := []

namespace Duty

def tell (a : Address) (event : PeerEvent) : Duty := { address := a, events := [event] }

def admission (a : Address) : Duty :=
  { address := a, steps := [.run .pauseScanning none, .run .connect none] }

def run (R : Radio σ) (w : World σ) (e : Duty) : World σ := w.settle R e.address e.steps e.events

/-- Whoever is sent away is told no more than that. -/
theorem sent_away {addresses : List Address} :
    ∀ d ∈ addresses.map (tell · .disconnectRequested), d = tell d.address .disconnectRequested := by
  intro d hd
  obtain ⟨a, -, rfl⟩ := List.mem_map.1 hd
  rfl

theorem run_tell (R : Radio σ) (a : Address) (event : PeerEvent) (w : World σ) :
    (tell a event).run R w = w.drive R a event := rfl

end Duty

def Report.isStatus : Report → Bool
  | connected .. | disconnected _ => true
  | dataReceived .. | dataSent .. => false

def Report.about (a : Address) (r : Report) : Bool := r.isStatus && decide (r.address = a)

inductive Exchange.Apart : Exchange → Prop where
  | told {event : RadioEvent} : Apart (.told event)
  | write {h : Handle} {c : Uuid} {data : Bytes} {mode : WriteMode} {answer : Bool} :
      Apart (.asked (.write h c data mode) answer)

namespace World

def withRegistry (registry : Registry) (w : World σ) : World σ :=
  { w with central := { w.central with registry } }

def statuses (a : Address) (w : World σ) : List Report := w.central.reports.filter (·.about a)

def openEvent (event : RadioEvent) (R : Radio σ) (w : World σ) : World σ × List Duty :=
  match event with
  | .advertisement a data => if w.admits a data then (w.enter a, [.admission a]) else (w, [])
  | event =>
    match event.peerEvent? w.central.settings.service with
    | some (h, told) => (w, (w.central.registry.addressFor? h).toList.map (.tell · told))
    | none => (w.onRadioEvent R event, [])

def openAttempt (R : Radio σ) (a : Address) (w : World σ) : World σ × List Duty :=
  if w.awaitsConnect a then
    match R.dial w.central.settings.routes a w.radio with
    | (.ok _, _) => (w.initiate R a, [])
    | (.error _, radio) => ({ w with radio }, [.tell a .connectFailed])
  else (w, [])

def openStep (R : Radio σ) (w : World σ) : Operation → World σ × List Duty
  | .stop order =>
    (w.scan (Scanner.stop R), (w.central.registry.addresses order).map (.tell · .disconnectRequested))
  | .disconnect a => (w, [.tell a .disconnectRequested])
  | .radioEvent event => w.openEvent event R
  | .initiate a => w.openAttempt R a
  | .dispatchNext =>
    match w.takeAttempt with
    | (some a, w) => w.openAttempt R a
    | (none, w) => (w, [])
  | o => (w.step R o, [])

/-- The first moment of a happening, and the duties it leaves. -/
def opening (R : Radio σ) (w : World (Recorded σ)) : Happening σ → World (Recorded σ) × List Duty
  | .operation o => (w.hear o.event?).openStep R.recorded o
  | .radioChanges change => (w.happen R (.radioChanges change), [])

def runAll (R : Radio σ) (w : World σ) (duties : List Duty) : World σ := duties.foldl (Duty.run R) w

/-- What the steps and the transitions of their peers keep, duties keep. -/
theorem runAll_induction {R : Radio σ} {P : World σ → Prop} {duties : List Duty}
    (execute : ∀ d ∈ duties, ∀ step v, P v → P (v.execute R d.address step).2)
    (transition : ∀ d ∈ duties, ∀ event v, P v → P (v.transition R d.address event).2)
    {w : World σ} (h : P w) : P (w.runAll R duties) := by
  induction duties generalizing w with
  | nil => exact h
  | cons d duties ih =>
    have first : P (d.run R w) := settle_induction (I := fun _ _ v => P v)
      (fun step _ _ v => execute d List.mem_cons_self step v)
      (fun event _ v => transition d List.mem_cons_self event v) h
    exact ih (fun e he => execute e (List.mem_cons_of_mem d he))
      (fun e he => transition e (List.mem_cons_of_mem d he)) first

theorem onHandle_eq (R : Radio σ) (h : Handle) (event : PeerEvent) (w : World σ) :
    w.onHandle R h event =
      w.runAll R ((w.central.registry.addressFor? h).toList.map (.tell · event)) := by
  unfold onHandle
  cases w.central.registry.addressFor? h <;> rfl

theorem onRadioEvent_eq (R : Radio σ) (event : RadioEvent) (w : World σ) :
    w.onRadioEvent R event = (w.openEvent event R).1.runAll R (w.openEvent event R).2 := by
  cases event with
  | advertisement a data =>
    simp only [onRadioEvent, onAdvertisement, openEvent]
    split
    · rename_i admits
      have unknown := unknown_of_admits admits
      have entered := fun policy => Registry.advance_insertConnecting unknown policy
      simp only [transition, entered]
      rfl
    · rfl
  | connected h | disconnected h | servicesDiscovered h services | unitSizeChanged h size success =>
    exact onHandle_eq R h _ w
  | descriptorWritten h c value success =>
    simp only [onRadioEvent, openEvent, RadioEvent.peerEvent?]
    cases Subscription.resultEvent? c value success with
    | some event => exact onHandle_eq R h event w
    | none => rfl
  | characteristicChanged | characteristicWritten => rfl

theorem initiate_eq (R : Radio σ) (a : Address) (w : World σ) :
    w.initiate R a = (w.openAttempt R a).1.runAll R (w.openAttempt R a).2 := by
  unfold openAttempt
  split
  · rename_i waits
    split
    · rfl
    · rename_i dialed
      exact initiate_refused R waits dialed
  · rename_i past
    exact initiate_past R (by simpa using past)

theorem step_eq (R : Radio σ) (o : Operation) (w : World σ) :
    w.step R o = (w.openStep R o).1.runAll R (w.openStep R o).2 := by
  cases o with
  | stop order =>
    simp only [openStep, runAll, List.foldl_map]
    rfl
  | disconnect a => rfl
  | radioEvent event => exact onRadioEvent_eq R event w
  | initiate a => exact initiate_eq R a w
  | dispatchNext =>
    simp only [step, dispatchNext, openStep, takeAttempt]
    cases w.central.dispatch.queue with
    | nil => rfl
    | cons a queue => exact initiate_eq R a _
  | start | reset | write | registerNotify | setNonce | setGovernor | claimDispatch | dropDispatch => rfl

/-- What happens is its opening and the duties that leaves. -/
theorem happen_eq (R : Radio σ) (w : World (Recorded σ)) (x : Happening σ) :
    w.happen R x = (w.opening R x).1.runAll R.recorded (w.opening R x).2 := by
  cases x with
  | operation o => exact step_eq R.recorded o _
  | radioChanges change => rfl

theorem opening_admitted (R : Radio σ) {w : World (Recorded σ)} {a : Address} {data : Bytes}
    (admits : w.admits a data = true) :
    w.opening R (.operation (.radioEvent (.advertisement a data))) =
      ((w.hear (some (.advertisement a data))).enter a, [.admission a]) := by
  have heard : (w.hear (some (.advertisement a data))).admits a data = true := admits
  simp only [opening, Operation.event?, openStep, openEvent, heard, ↓reduceIte]

theorem happen_admitted (R : Radio σ) {w : World (Recorded σ)} {a : Address} {data : Bytes}
    (admits : w.admits a data = true) :
    w.happen R (.operation (.radioEvent (.advertisement a data))) =
      ((w.hear (some (.advertisement a data))).enter a).runAll R.recorded [.admission a] := by
  rw [happen_eq, opening_admitted R admits]

/-- An admission halts the scan before anything else. -/
theorem run_admission (R : Radio σ) (a : Address) (w : World σ) :
    w.runAll R [.admission a] = (w.scan (Scanner.pause R)).settle R a [.run .connect none] [] := by
  simp only [runAll, List.foldl_cons, List.foldl_nil, Duty.run, Duty.admission]
  rw [settle]
  rfl

/-- The ways in which a happening begins, with the duties they leave. -/
inductive Opened (R : Radio σ) (w : World (Recorded σ)) :
    Happening σ → World (Recorded σ) → List Duty → Prop where
  | started : Opened R w (.operation .start) (w.scan (Scanner.start R.recorded)) []
  | stopped (order : Registry.Order) :
      Opened R w (.operation (.stop order)) (w.scan (Scanner.stop R.recorded))
        ((w.central.registry.addresses order).map (.tell · .disconnectRequested))
  | reset (order : Registry.Order) :
      Opened R w (.operation (.reset order)) (w.reset R.recorded order) []
  | sentAway (a : Address) :
      Opened R w (.operation (.disconnect a)) w [.tell a .disconnectRequested]
  | reached {event : RadioEvent} {a : Address} {told : PeerEvent} (reaches : w.Reaches event a told) :
      Opened R w (.operation (.radioEvent event)) (w.hear (some event)) [.tell a told]
  | admitted {a : Address} {data : Bytes} (admits : w.admits a data = true) :
      Opened R w (.operation (.radioEvent (.advertisement a data)))
        ((w.hear (some (.advertisement a data))).enter a) [.admission a]
  | attached {x : Happening σ} {w' : World (Recorded σ)} {a : Address} {p : Peer} {h : Handle}
      {log : Log} (other : x ≠ .operation .start) (here : w.central.registry.get? a = some p)
      (phase : p.phase = .connecting) (bare : p.handle = none)
      (registry : w'.central.registry = (w.central.registry.attach a h).2)
      (scanner : w'.central.scanner = w.central.scanner)
      (reports : w'.central.reports = w.central.reports)
      (grown : w'.radio.log = w.radio.log ++ log) (dials : Dials a log (some h)) : Opened R w x w' []
  | failed {x : Happening σ} {w' : World (Recorded σ)} {a : Address} {log : Log}
      (other : x ≠ .operation .start) (waits : w.awaitsConnect a = true)
      (registry : w'.central.registry = w.central.registry)
      (scanner : w'.central.scanner = w.central.scanner)
      (reports : w'.central.reports = w.central.reports)
      (grown : w'.radio.log = w.radio.log ++ log) (dials : Dials a log none) :
      Opened R w x w' [.tell a .connectFailed]
  | aside {x : Happening σ} {w' : World (Recorded σ)} {log : Log} (other : x ≠ .operation .start)
      (registry : w'.central.registry = w.central.registry)
      (scanner : w'.central.scanner = w.central.scanner)
      (statuses : ∀ a, w'.statuses a = w.statuses a)
      (grown : w'.radio.log = w.radio.log ++ log) (apart : ∀ e ∈ log, e.Apart) : Opened R w x w' []

section

variable {R : Radio σ} {w : World (Recorded σ)} {x : Happening σ}

/-- What changes neither the registry, nor the scan, nor what was said is aside. -/
theorem opened_aside {w' : World (Recorded σ)} (other : x ≠ .operation .start)
    (registry : w'.central.registry = w.central.registry)
    (scanner : w'.central.scanner = w.central.scanner)
    (reports : w'.central.reports = w.central.reports) (log : w'.radio.log = w.radio.log) :
    Opened R w x w' [] := by
  have statuses : ∀ a, w'.statuses a = w.statuses a := fun a => by rw [World.statuses, reports]; rfl
  have grown : w'.radio.log = w.radio.log ++ [] := by rw [log, List.append_nil]
  exact .aside other registry scanner statuses grown (by simp)

/-- An event of the radio that reaches nobody may lead to a report of another kind. -/
theorem opened_heard {event : RadioEvent} {w' : World (Recorded σ)}
    (registry : w'.central.registry = w.central.registry)
    (scanner : w'.central.scanner = w.central.scanner)
    (statuses : ∀ a, w'.statuses a = w.statuses a)
    (grown : w'.radio.log = w.radio.log ++ [.told event]) :
    Opened R w (.operation (.radioEvent event)) w' [] := by
  refine .aside (by simp) registry scanner statuses grown fun e he => ?_
  obtain rfl := List.mem_singleton.1 he
  exact .told

theorem statuses_report {r : Report} (other : r.isStatus = false) (a : Address) (w : World σ) :
    (w.report r).statuses a = w.statuses a := by
  simp [statuses, report, Central.report, Report.about, other]

theorem opened_onHandle {event : RadioEvent} {h : Handle} {told : PeerEvent}
    (means : event.peerEvent? w.central.settings.service = some (h, told)) :
    Opened R w (.operation (.radioEvent event)) (w.hear (some event))
      ((w.central.registry.addressFor? h).toList.map (.tell · told)) := by
  cases known : w.central.registry.addressFor? h with
  | some a => exact .reached ⟨h, means, known⟩
  | none => exact opened_heard rfl rfl (fun _ => rfl) rfl

theorem opened_onRadioEvent (event : RadioEvent) :
    Opened R w (.operation (.radioEvent event)) ((w.hear (some event)).openEvent event R.recorded).1
      ((w.hear (some event)).openEvent event R.recorded).2 := by
  cases event with
  | advertisement a data =>
    simp only [openEvent]
    split
    · rename_i admits
      exact .admitted admits
    · exact opened_heard rfl rfl (fun _ => rfl) rfl
  | connected | disconnected | servicesDiscovered | unitSizeChanged => exact opened_onHandle rfl
  | descriptorWritten h c value success =>
    cases result : Subscription.resultEvent? c value success with
    | some told =>
      have means : (RadioEvent.descriptorWritten h c value success).peerEvent?
          w.central.settings.service = some (h, told) := by simp [RadioEvent.peerEvent?, result]
      simp only [openEvent, RadioEvent.peerEvent?, result, Option.map_some]
      exact opened_onHandle means
    | none =>
      simp only [openEvent, RadioEvent.peerEvent?, result, Option.map_none, onRadioEvent]
      exact opened_heard rfl rfl (fun _ => rfl) rfl
  | characteristicChanged h c value =>
    simp only [openEvent, RadioEvent.peerEvent?, onRadioEvent, onValue]
    split
    · exact opened_heard rfl rfl (fun _ => rfl) rfl
    · split
      · split
        · exact opened_heard rfl rfl (statuses_report rfl · _) rfl
        · exact opened_heard rfl rfl (fun _ => rfl) rfl
      · exact opened_heard rfl rfl (fun _ => rfl) rfl
  | characteristicWritten h c value status =>
    simp only [openEvent, RadioEvent.peerEvent?, onRadioEvent, onWritten]
    split
    · exact opened_heard rfl rfl (fun _ => rfl) rfl
    · exact opened_heard rfl rfl (statuses_report rfl · _) rfl

theorem opened_initiate {w' : World (Recorded σ)} (other : x ≠ .operation .start) (a : Address)
    (registry : w'.central.registry = w.central.registry)
    (scanner : w'.central.scanner = w.central.scanner)
    (reports : w'.central.reports = w.central.reports) (log : w'.radio.log = w.radio.log) :
    Opened R w x (w'.openAttempt R.recorded a).1 (w'.openAttempt R.recorded a).2 := by
  have waits := awaitsConnect_congr registry a
  unfold openAttempt
  cases waiting : w'.awaitsConnect a with
  | false => exact opened_aside other registry scanner reports log
  | true =>
    obtain ⟨more, s, grown, outcome⟩ := dial_spec R waiting
    rw [log] at grown
    rcases outcome with ⟨refusal, dialed, dials⟩ | ⟨p, h, dialed, dials, here, phase, bare⟩
    · simp only [↓reduceIte, dialed]
      exact .failed other (by rw [← waits, waiting]) registry scanner reports grown dials
    · simp only [↓reduceIte, dialed, initiate_accepted R.recorded waiting dialed]
      exact .attached other (registry ▸ here) phase bare (by rw [registry]) scanner reports grown dials

theorem opened_write (data : Bytes) (c : Uuid) (a : Address) :
    Opened R w (.operation (.write data c a)) (w.write R.recorded data c a).2 [] := by
  have nothing : Opened R w (.operation (.write data c a)) w [] :=
    opened_aside (by simp) rfl rfl rfl rfl
  unfold write
  cases w.central.registry.get? a with
  | none => exact nothing
  | some p =>
    simp only
    split
    · exact nothing
    · split
      · exact nothing
      · split
        · split
          · refine .aside (by simp) rfl rfl (fun _ => rfl) (log_ask R _ w) fun e he => ?_
            obtain rfl := List.mem_singleton.1 he
            exact .write
          · exact nothing
        · exact nothing

/-- Every happening begins in one of these ways. -/
theorem opened_opening (R : Radio σ) (w : World (Recorded σ)) (x : Happening σ) :
    Opened R w x (w.opening R x).1 (w.opening R x).2 := by
  cases x with
  | radioChanges change => exact opened_aside (by simp) rfl rfl rfl rfl
  | operation o =>
    cases o with
    | radioEvent event => exact opened_onRadioEvent event
    | start =>
      simp only [opening, Operation.event?, hear_none]
      exact .started
    | stop order =>
      simp only [opening, Operation.event?, hear_none]
      exact .stopped order
    | reset order =>
      simp only [opening, Operation.event?, hear_none]
      exact .reset order
    | disconnect a =>
      simp only [opening, Operation.event?, hear_none]
      exact .sentAway a
    | write data c a =>
      simp only [opening, Operation.event?, hear_none]
      exact opened_write data c a
    | initiate a =>
      simp only [opening, Operation.event?, hear_none]
      exact opened_initiate (by simp) a rfl rfl rfl rfl
    | dispatchNext =>
      simp only [opening, Operation.event?, hear_none, openStep, takeAttempt]
      cases w.central.dispatch.queue with
      | nil => exact opened_aside (by simp) rfl rfl rfl rfl
      | cons a queue => exact opened_initiate (by simp) a rfl rfl rfl rfl
    | registerNotify | setNonce | setGovernor | dropDispatch =>
      simp only [opening, Operation.event?, hear_none]
      exact opened_aside (by simp) rfl rfl rfl rfl
    | claimDispatch =>
      simp only [opening, Operation.event?, hear_none, openStep, step, claimDispatch, Dispatch.claim]
      split <;> exact opened_aside (by simp) rfl rfl rfl rfl

end

end World

end RadioCentral
