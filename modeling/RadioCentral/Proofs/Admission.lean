import RadioCentral.Proofs.Advert.Grammar
import RadioCentral.Proofs.CentralCoherence
import RadioCentral.Proofs.Run.Changes

/-!
Which advertisements are answered by connecting, and everything that comes of one: the new peer and
its attempt, or, where nobody takes attempts any more, the report of its end.
-/
namespace RadioCentral

open Registry (Step)

variable {σ : Type}

def Change.Adds (a : Address) (c : Change σ) : Prop :=
  c.before.central.registry.contains a = false ∧ c.after.central.registry.contains a = true

namespace Registry

/-- Taking a new peer out again leaves no trace of it. -/
theorem remove_enroll {r : Registry} {a : Address} (unknown : r.contains a = false)
    (closed : a ∉ r.connecting) : ((r.enroll a).remove a).2 = r := by
  have here := get?_enroll unknown a
  rw [if_pos rfl] at here
  have others : ∀ p ∈ r.peers, decide (p.address ≠ a) = true := by
    simpa [contains, get?] using unknown
  have attempts : ∀ b ∈ r.connecting, decide (b ≠ a) = true := fun b hb => by
    simpa using ne_of_mem_of_not_mem hb closed
  have peers : (r.enroll a).peers.filter (fun p => decide (p.address ≠ a)) = r.peers := by
    simp only [enroll, lodge, List.filter_append, List.filter_eq_self.2 others]
    simp
  have index : (r.enroll a).index.filter (fun entry => decide (some entry.1 ≠ none)) = r.index := by
    simp [enroll, lodge]
  have connecting : (r.enroll a).connecting.filter (fun b => decide (b ≠ a)) = r.connecting := by
    simp only [enroll, lodge, List.filter_append, List.filter_eq_self.2 attempts]
    simp
  simp only [remove, here, peers, index, connecting]

/-- A new peer whose attempt cannot be queued goes at once. -/
theorem advance_connectFailed {r : Registry} {a : Address} (unknown : r.contains a = false)
    (closed : a ∉ r.connecting) (policy : LinkPolicy) :
    (r.enroll a).advance policy a .connectFailed =
      ([.run .reportDisconnected none, .run .resumeScanning none], r) := by
  have here := get?_enroll unknown a
  rw [if_pos rfl] at here
  rw [advance_abandoned here rfl rfl, remove_enroll unknown closed]

end Registry

namespace World

structure Admissible (w : World σ) (a : Address) (data : Bytes) : Prop where
  wanted : w.central.scanner.requested = true
  invites : Advert.Invites w.central.settings.service w.central.nonce data
  unknown : ∀ p ∈ w.central.registry.peers, p.address ≠ a
  allowed : ∀ governor ∈ w.central.governor, governor a = true

theorem admits_iff {w : World σ} {a : Address} {data : Bytes} :
    w.admits a data = true ↔ w.Admissible a data := by
  have connects : Advert.Invites w.central.settings.service w.central.nonce data ↔ ∃ nonce,
      (Advert.parse data).verdict w.central.settings.service w.central.nonce = .connect nonce :=
    Advert.verdict_connect_iff.symm
  have unknown : w.central.registry.contains a = false ↔ ∀ p ∈ w.central.registry.peers, p.address ≠ a := by
    simp [Registry.contains, Registry.get?]
  have allowed : w.central.allows a = true ↔ ∀ governor ∈ w.central.governor, governor a = true := by
    unfold Central.allows
    cases w.central.governor <;> simp
  simp only [admits, Bool.and_eq_true, Bool.not_eq_true', unknown, allowed]
  generalize (Advert.parse data).verdict w.central.settings.service w.central.nonce = verdict at connects
  constructor
  · rintro ⟨⟨⟨wanted, invited⟩, unknown⟩, allowed⟩
    refine ⟨wanted, connects.2 ?_, unknown, allowed⟩
    cases verdict with
    | connect nonce => exact ⟨nonce, rfl⟩
    | _ => cases invited
  · rintro ⟨wanted, invites, unknown, allowed⟩
    obtain ⟨nonce, rfl⟩ := connects.1 invites
    exact ⟨⟨⟨wanted, rfl⟩, unknown⟩, allowed⟩

section

variable (R : Radio σ) {w : World (Recorded σ)} {a : Address} {data : Bytes}

theorem opening_refused (refused : ¬ w.Admissible a data) :
    w.opening R (.operation (.radioEvent (.advertisement a data))) =
      (w.hear (some (.advertisement a data)), []) := by
  rw [← admits_iff, Bool.not_eq_true] at refused
  have heard : (w.hear (some (.advertisement a data))).admits a data = false := refused
  simp only [opening, Operation.event?, openStep, openEvent, heard, Bool.false_eq_true, ↓reduceIte]

theorem adds_iff :
    (∃ c ∈ w.changes R (.operation (.radioEvent (.advertisement a data))), c.Adds a) ↔
      w.Admissible a data := by
  constructor
  · rintro ⟨c, made, added⟩
    by_contra refused
    rw [changes, opening_refused R refused] at made
    obtain rfl := List.mem_singleton.1 made
    obtain ⟨before, after⟩ := added
    have same : w.central.registry.contains a = true := after
    rw [same] at before
    cases before
  · intro admissible
    have admits := admits_iff.2 admissible
    have unknown := unknown_of_admits admits
    refine ⟨_, List.mem_cons_self, unknown, ?_⟩
    rw [opening_admitted R admits]
    have view := Registry.get?_enroll unknown a
    rw [if_pos rfl] at view
    exact Registry.contains_iff.2 ⟨_, view⟩

theorem happen_refused (refused : ¬ w.Admissible a data) :
    w.happen R (.operation (.radioEvent (.advertisement a data))) =
      w.hear (some (.advertisement a data)) := by
  rw [happen_eq, opening_refused R refused]
  rfl

/-- What is asked of the radio when the scan is halted. -/
def halting (c : Scanner) (answer : Bool) : Log := if c.active then [.asked .stopScan answer] else []

theorem halt_spec (c : Scanner) (s : Recorded σ) :
    ∃ answer, (c.halt R.recorded s).1 = { c with active := false } ∧
      (c.halt R.recorded s).2.log = s.log ++ halting c answer := by
  unfold Scanner.halt halting
  split
  · exact ⟨_, rfl, rfl⟩
  · rename_i off
    refine ⟨false, ?_, by simp⟩
    have same : c.active = false := by simpa using off
    rw [← same]

/-- What is asked of the radio when a scan that is off goes on, with no other attempt open. -/
def resuming (c : Scanner) (connecting : List Address) (answer : Bool) : Log :=
  if connecting = [] then [.asked (.startScan c.mode c.service) answer] else []

theorem resume_spec {c : Scanner} (off : c.active = false) (wanted : c.requested = true) (s : Recorded σ) :
    ∃ answer, (c.resume R.recorded s).1 = { c with active := answer } ∧
      (c.resume R.recorded s).2.log = s.log ++ [.asked (.startScan c.mode c.service) answer] := by
  simp only [Scanner.resume, Scanner.activate, wanted, off, Bool.false_eq_true, ↓reduceIte]
  exact ⟨_, rfl, rfl⟩

theorem settle_connect (R : Radio σ) (a : Address) (v : World σ) :
    v.settle R a [.run .connect none] [] =
      if v.central.dispatch.receiver = .dropped then v.drive R a .connectFailed
      else { v with central := { v.central with
        dispatch := { v.central.dispatch with queue := v.central.dispatch.queue ++ [a] } } } := by
  rw [settle]
  simp only [execute, perform, Dispatch.send]
  by_cases gone : v.central.dispatch.receiver = .dropped
  · simp only [gone, ↓reduceIte]
    rfl
  · simp only [gone, ↓reduceIte]
    show settle R a [] [] _ = _
    rw [settle]

theorem happen_queued (admissible : w.Admissible a data) (alive : w.central.dispatch.receiver ≠ .dropped) :
    ∃ answer,
      (w.happen R (.operation (.radioEvent (.advertisement a data)))).central =
        { w.central with
          registry := w.central.registry.enroll a
          scanner := { w.central.scanner with active := false }
          dispatch := { w.central.dispatch with queue := w.central.dispatch.queue ++ [a] } } ∧
      (w.happen R (.operation (.radioEvent (.advertisement a data)))).radio.log =
        w.radio.log ++ .told (.advertisement a data) :: halting w.central.scanner answer := by
  let entered := (w.hear (some (.advertisement a data))).enter a
  obtain ⟨answer, scanner, log⟩ := halt_spec R w.central.scanner entered.radio
  have still : (entered.scan (Scanner.pause R.recorded)).central.dispatch.receiver ≠ .dropped := alive
  refine ⟨answer, ?_⟩
  rw [happen_admitted R (admits_iff.2 admissible), run_admission, settle_connect, if_neg still]
  constructor
  · show ({ w.central with
      registry := w.central.registry.enroll a
      scanner := (w.central.scanner.halt R.recorded entered.radio).1
      dispatch := { w.central.dispatch with queue := w.central.dispatch.queue ++ [a] } } : Central) = _
    rw [scanner]
  · show (w.central.scanner.halt R.recorded entered.radio).2.log = _
    rw [log]
    exact List.append_assoc _ _ _

theorem transition_connectFailed (R : Radio σ) {r : Registry} {v : World σ}
    (entered : v.central.registry = r.enroll a) (unknown : r.contains a = false) (closed : a ∉ r.connecting) :
    v.transition R a .connectFailed =
      ([.run .reportDisconnected none, .run .resumeScanning none], v.withRegistry r) := by
  unfold transition
  rw [entered, Registry.advance_connectFailed unknown closed]
  rfl

/-- A new peer goes at once where nobody takes attempts any more, and the scan goes on. -/
theorem happen_unqueued (admissible : w.Admissible a data) (gone : w.central.dispatch.receiver = .dropped)
    (closed : a ∉ w.central.registry.connecting) :
    ∃ answer active,
      (w.happen R (.operation (.radioEvent (.advertisement a data)))).central =
        { w.central with
          scanner := { w.central.scanner with active }
          reports := w.central.reports ++ [.disconnected a] } ∧
      (active = true → w.central.registry.connecting = []) ∧
      (w.happen R (.operation (.radioEvent (.advertisement a data)))).radio.log =
        w.radio.log ++ .told (.advertisement a data) :: (halting w.central.scanner answer ++
          resuming w.central.scanner w.central.registry.connecting active) := by
  have unknown := unknown_of_admits (admits_iff.2 admissible)
  let entered := (w.hear (some (.advertisement a data))).enter a
  let paused := entered.scan (Scanner.pause R.recorded)
  obtain ⟨answer, scanner, log⟩ := halt_spec R w.central.scanner entered.radio
  have still : paused.central.dispatch.receiver = .dropped := gone
  let left := paused.withRegistry w.central.registry
  have failed : paused.transition R.recorded a .connectFailed =
      ([.run .reportDisconnected none, .run .resumeScanning none], left) :=
    transition_connectFailed R.recorded rfl unknown closed
  have scanned : paused.central.scanner = { w.central.scanner with active := false } := scanner
  have halted : paused.radio.log = w.radio.log ++ .told (.advertisement a data) ::
      halting w.central.scanner answer := log.trans (List.append_assoc _ _ _)
  rw [happen_admitted R (admits_iff.2 admissible), run_admission, settle_connect, if_pos still, drive_eq,
    failed]
  dsimp only
  rw [settle_left]
  by_cases clear : left.central.registry.connecting = []
  · obtain ⟨active, resumed, asked⟩ := resume_spec R (c := paused.central.scanner) (by rw [scanned])
      (by rw [scanned]; exact admissible.wanted) paused.radio
    refine ⟨answer, active, ?_, fun _ => clear, ?_⟩
    · rw [if_pos clear]
      show ({ w.central with
        scanner := (paused.central.scanner.resume R.recorded paused.radio).1
        reports := w.central.reports ++ [.disconnected a] } : Central) = _
      rw [resumed, scanned]
    · rw [if_pos clear]
      show (paused.central.scanner.resume R.recorded paused.radio).2.log = _
      rw [asked, halted, scanned, resuming, if_pos (show w.central.registry.connecting = [] from clear)]
      simp
  · refine ⟨answer, false, ?_, fun on => absurd on (by decide), ?_⟩
    · rw [if_neg clear]
      show ({ w.central with
        scanner := paused.central.scanner
        reports := w.central.reports ++ [.disconnected a] } : Central) = _
      rw [scanned]
    · rw [if_neg clear]
      show paused.radio.log = _
      rw [halted, resuming, if_neg (show w.central.registry.connecting ≠ [] from clear), List.append_nil]

end

/-- Admission is exact. Wherever a run has led, an advertisement enters its peer exactly when scanning
is wanted, the bytes call for a connection under the service and the nonce of the central, the peer is
unknown and the governor has nothing against it. Otherwise it is written down and nothing else happens.
An admitted peer gets one attempt in the queue and halts the scan; where the receiver of the queue is
gone, its end is reported instead, and only the scan and the reports have changed. -/
theorem advertisement_admitted_iff (R : Radio σ) (settings : Settings) (s : σ)
    (history : List (Happening σ)) (a : Address) (data : Bytes) :
    let w := outcome R settings s history
    let adverted : Happening σ := .operation (.radioEvent (.advertisement a data))
    let told : Exchange := .told (.advertisement a data)
    let w' := w.happen R adverted
    ((∃ c ∈ w.changes R adverted, c.Adds a) ↔ w.Admissible a data) ∧
    (¬ w.Admissible a data → w'.central = w.central ∧ w'.radio.state = w.radio.state ∧
      w'.radio.log = w.radio.log ++ [told]) ∧
    (w.Admissible a data → w.central.dispatch.receiver ≠ .dropped → ∃ answer,
      w'.central = { w.central with
        registry := { w.central.registry with
          peers := w.central.registry.peers ++ [{ address := a, phase := .connecting }]
          connecting := w.central.registry.connecting ++ [a] }
        scanner := { w.central.scanner with active := false }
        dispatch := { w.central.dispatch with queue := w.central.dispatch.queue ++ [a] } } ∧
      w'.radio.log = w.radio.log ++ told :: halting w.central.scanner answer) ∧
    (w.Admissible a data → w.central.dispatch.receiver = .dropped → ∃ answer active,
      w'.central = { w.central with
        scanner := { w.central.scanner with active }
        reports := w.central.reports ++ [.disconnected a] } ∧
      w'.central.registry.contains a = false ∧
      (active = true → w.central.registry.connecting = []) ∧
      w'.radio.log = w.radio.log ++ told :: (halting w.central.scanner answer ++
        resuming w.central.scanner w.central.registry.connecting active)) := by
  intro w adverted told w'
  have orderly := orderly_outcome R settings s history
  refine ⟨adds_iff R, fun refused => ?_, fun admissible alive => happen_queued R admissible alive,
    fun admissible gone => ?_⟩
  · have heard : w' = w.hear (some (.advertisement a data)) := happen_refused R refused
    rw [heard]
    exact ⟨rfl, rfl, rfl⟩
  · have unknown := unknown_of_admits (admits_iff.2 admissible)
    have closed : a ∉ w.central.registry.connecting := fun open' => by
      obtain ⟨p, here, -⟩ := orderly.peer_of_attempt open'
      rw [Registry.contains, here] at unknown
      cases unknown
    obtain ⟨answer, active, central, clear, log⟩ := happen_unqueued R admissible gone closed
    have left : w'.central.registry.contains a = false := by
      rw [central]
      exact unknown
    exact ⟨answer, active, central, left, clear, log⟩

/-- The invitation of the encounter is admissible, with a receiver of the queue and without one. -/
theorem invitation_admitted :
    let asked : List (Happening SimulatedRadio) := [.operation .start]
    let left : List (Happening SimulatedRadio) := [.operation .start, .operation .dropDispatch]
    let adverted : Happening SimulatedRadio := .operation (.radioEvent (.advertisement ⟨"a"⟩ invitation))
    let w := outcome SimulatedRadio.radio Encounter.settings {} asked
    let v := outcome SimulatedRadio.radio Encounter.settings {} left
    (w.Admissible ⟨"a"⟩ invitation ∧ w.central.dispatch.receiver ≠ .dropped ∧
      (w.happen SimulatedRadio.radio adverted).central.dispatch.queue = w.central.dispatch.queue ++ [⟨"a"⟩]) ∧
    v.Admissible ⟨"a"⟩ invitation ∧ v.central.dispatch.receiver = .dropped ∧
      (v.happen SimulatedRadio.radio adverted).central.reports = v.central.reports ++ [.disconnected ⟨"a"⟩] := by
  intro asked left adverted w v
  have here : w.Admissible ⟨"a"⟩ invitation := admits_iff.1 (by cbv)
  have there : v.Admissible ⟨"a"⟩ invitation := admits_iff.1 (by cbv)
  have alive : w.central.dispatch.receiver ≠ .dropped := by
    have unclaimed : w.central.dispatch.receiver = .unclaimed := by cbv
    simp [unclaimed]
  have gone : v.central.dispatch.receiver = .dropped := by cbv
  obtain ⟨-, -, queued, -⟩ :=
    advertisement_admitted_iff SimulatedRadio.radio Encounter.settings {} asked ⟨"a"⟩ invitation
  obtain ⟨-, -, -, unqueued⟩ :=
    advertisement_admitted_iff SimulatedRadio.radio Encounter.settings {} left ⟨"a"⟩ invitation
  obtain ⟨_, queue, -⟩ := queued here alive
  obtain ⟨_, _, reports, -⟩ := unqueued there gone
  exact ⟨⟨here, alive, congrArg (·.dispatch.queue) queue⟩, there, gone, congrArg (·.reports) reports⟩

end World

end RadioCentral
