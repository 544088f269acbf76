import RadioCentral.Proofs.CentralCoherence
import RadioCentral.Proofs.Run.Changes

/-!
Scanning gives way to connection attempts and comes back after them. While an attempt is open nothing
but the caller's own request turns the scan on; once the last attempt is over, a scan that is wanted
goes on.
-/
namespace RadioCentral

open Registry (Step)

variable {σ : Type}

namespace Log

def AsksScan (log : Log) (answer : Bool) : Prop :=
  ∃ mode service, .asked (.startScan mode service) answer ∈ log

theorem AsksScan.mono {log more : Log} {answer : Bool} (h : log.AsksScan answer) (grown : log ⊆ more) :
    more.AsksScan answer := by
  obtain ⟨mode, service, mem⟩ := h
  exact ⟨mode, service, grown mem⟩

/-- Since an earlier time the radio has not been asked to scan. -/
def Quiet (old log : Log) : Prop := ∃ more, log = old ++ more ∧ ∀ answer, ¬ AsksScan more answer

namespace Quiet

variable {old log more : Log}

theorem refl (log : Log) : Quiet log log := ⟨[], by simp, fun _ ⟨_, _, mem⟩ => by cases mem⟩

theorem trans {mid : Log} (first : Quiet old mid) (second : Quiet mid log) : Quiet old log := by
  obtain ⟨earlier, rfl, none⟩ := first
  obtain ⟨later, rfl, silent⟩ := second
  refine ⟨earlier ++ later, List.append_assoc _ _ _, ?_⟩
  rintro answer ⟨mode, service, mem⟩
  rcases List.mem_append.1 mem with mem | mem
  · exact none answer ⟨mode, service, mem⟩
  · exact silent answer ⟨mode, service, mem⟩

theorem of_prefix {mid : Log} (h : Quiet old log) (begun : old <+: mid) (grown : mid <+: log) :
    Quiet old mid := by
  obtain ⟨more, rfl, none⟩ := h
  obtain ⟨earlier, rfl⟩ := begun
  obtain ⟨later, same⟩ := grown
  refine ⟨earlier, rfl, fun answer asked => none answer (asked.mono ?_)⟩
  rw [List.append_assoc] at same
  rw [← List.append_cancel_left same]
  exact List.subset_append_left _ _

theorem of_forall (none : ∀ e ∈ more, ∀ mode service answer, e ≠ .asked (.startScan mode service) answer) :
    Quiet log (log ++ more) :=
  ⟨more, rfl, fun _ ⟨_, _, mem⟩ => none _ mem _ _ _ rfl⟩

end Quiet

end Log

theorem Carried.quiet {step : Step} {log : Log} {event : Option PeerEvent}
    (carried : Carried step log event) (other : ∀ handle, step ≠ .run .pauseScanning handle ∧
      step ≠ .run .resumeScanning handle) (old : Log) : Log.Quiet old (old ++ log) := by
  refine Log.Quiet.of_forall fun e he mode service answer => ?_
  rintro rfl
  cases carried with
  | scan what =>
    rcases what with rfl | rfl
    · exact (other _).1 rfl
    · exact (other _).2 rfl
  | asked asks => cases asks <;> simp at he
  | subscribed switched | unsubscribed switched => cases switched <;> simp at he
  | released | queued | unqueued | silent | unlinked => simp at he

theorem Dials.quiet {a : Address} {log : Log} {answer : Option Handle} (dials : Dials a log answer)
    (old : Log) : Log.Quiet old (old ++ log) := by
  refine Log.Quiet.of_forall fun e he mode service answer => ?_
  induction dials with
  | exhausted => cases he
  | accepted route h => simp_all
  | refused route rest ih =>
    rcases List.mem_cons.1 he with rfl | he
    · simp
    · exact ih he

theorem Exchange.Apart.quiet {log : Log} (apart : ∀ e ∈ log, e.Apart) (old : Log) :
    Log.Quiet old (old ++ log) := by
  refine Log.Quiet.of_forall fun e he mode service answer => ?_
  rintro rfl
  cases apart _ he

namespace Peer

/-- A peer that gets ready lets the scan go on. -/
theorem Proceeds.resumes {policy : LinkPolicy} {p q : Peer} {event : PeerEvent} {actions : List Action}
    (h : p.Proceeds policy event q actions) (unready : p.phase ≠ .ready) (ready : q.phase = .ready) :
    .resumeScanning ∈ actions := by
  cases h with
  | ready | negotiated | unnegotiated => simp
  | note | enabled | settled | late => exact absurd ready unready
  | request | linkUp | subscribe | reject | negotiate | leave => simp [subscribing, leaving] at ready

/-- Only the admission of a peer halts the scan. -/
theorem Proceeds.unpaused {policy : LinkPolicy} {p q : Peer} {event : PeerEvent} {actions : List Action}
    (h : p.Proceeds policy event q actions) (begun : p.phase ≠ .idle) : .pauseScanning ∉ actions := by
  cases h with
  | request phase => exact absurd phase begun
  | _ => simp [leavingActions]

theorem Ends.unpaused {p : Peer} {event : PeerEvent} {before : List Action} (h : p.Ends event before) :
    .pauseScanning ∉ before := by
  cases h <;> simp [leavingActions]

end Peer

namespace Registry

/-- When the last attempt is over, the scan is to go on. -/
theorem resumes_advance {r : Registry} (orderly : r.Orderly) (policy : LinkPolicy) (a : Address)
    (event : PeerEvent) (some : r.connecting ≠ [])
    (none : (r.advance policy a event).2.connecting = []) :
    ∃ handle, .run .resumeScanning handle ∈ (r.advance policy a event).1 := by
  have spec := r.advance_spec policy a event
  generalize (r.advance policy a event).1 = steps at spec ⊢
  generalize (r.advance policy a event).2 = after at spec none
  cases spec with
  | ignored => exact absurd none some
  | @kept p q actions here moved =>
    obtain ⟨b, hb⟩ := List.exists_mem_of_ne_nil _ some
    have gone : ¬ (q.phase = .ready → b ≠ a) := fun still => by
      have mem := mem_connecting_putBack.2 ⟨hb, still⟩
      rw [none] at mem
      cases mem
    simp only [not_forall, not_not] at gone
    obtain ⟨ready, rfl⟩ := gone
    obtain ⟨p', there, unready⟩ := orderly.peer_of_attempt hb
    obtain rfl : p = p' := Option.some.inj (here.symm.trans there)
    exact ⟨p.handle, List.mem_map.2 ⟨_, moved.resumes unready ready, rfl⟩⟩
  | @ended p => exact ⟨p.handle, by simp⟩

theorem unpaused_advance {r : Registry} (orderly : r.Orderly) (policy : LinkPolicy) (a : Address)
    (event : PeerEvent) (handle : Option Handle) :
    .run .pauseScanning handle ∉ (r.advance policy a event).1 := by
  have spec := r.advance_spec policy a event
  generalize (r.advance policy a event).1 = steps at spec ⊢
  generalize (r.advance policy a event).2 = after at spec
  cases spec with
  | ignored => simp
  | @kept p _ _ here moved =>
    have none := moved.unpaused (orderly.live a p here).begun
    simp [none]
  | ended _ ended =>
    have none := ended.unpaused
    simp [none]

end Registry

namespace World

/-- Only pausing and resuming touch the scan. -/
theorem scanner_execute (R : Radio σ) (a : Address) {step : Step} (w : World σ)
    (other : ∀ handle, step ≠ .run .pauseScanning handle ∧ step ≠ .run .resumeScanning handle) :
    (w.execute R a step).2.central.scanner = w.central.scanner := by
  cases step with
  | release => rfl
  | run action handle =>
    cases action with
    | pauseScanning => exact absurd rfl (other handle).1
    | resumeScanning => exact absurd rfl (other handle).2
    | subscribe | unsubscribe =>
      simp only [execute, perform, registry_switch]
    | discoverServices | requestUnitSize | invalidateCache | disconnect =>
      simp only [execute, perform, registry_askOn]
    | connect | release | forget | reportConnected | reportDisconnected => rfl

section

variable {R : Radio σ} {a b : Address} {w : World (Recorded σ)}

/-- Duties make no peer known and open no attempt. -/
theorem runAll_shrinks (R : Radio σ) (duties : List Duty) (w : World σ) :
    (∀ b, (w.runAll R duties).central.registry.contains b = true →
      w.central.registry.contains b = true) ∧
    ∀ b ∈ (w.runAll R duties).central.registry.connecting, b ∈ w.central.registry.connecting := by
  refine runAll_induction (P := fun v =>
    (∀ b, v.central.registry.contains b = true → w.central.registry.contains b = true) ∧
      ∀ b ∈ v.central.registry.connecting, b ∈ w.central.registry.connecting) ?_ ?_ ?_
  · intro d _ step v now
    rw [registry_execute]
    exact now
  · rintro d - event v ⟨known, opened⟩
    have narrows := Registry.narrows_advance (v.policy R) d.address event v.central.registry
    exact ⟨fun b hb => known b (narrows.known b hb), fun b hb => opened b (narrows.opened b hb)⟩
  · exact ⟨fun _ h => h, fun _ h => h⟩

theorem quiet_execute (R : Radio σ) (step : Step) (off : w.central.scanner.active = false)
    (open' : b ∈ w.central.registry.connecting) :
    (w.execute R.recorded a step).2.central.scanner.active = false ∧
      Log.Quiet w.radio.log (w.execute R.recorded a step).2.radio.log := by
  by_cases other : ∀ handle, step ≠ .run .pauseScanning handle ∧ step ≠ .run .resumeScanning handle
  · obtain ⟨log, grown, carried⟩ := carried_execute R a step w
    rw [scanner_execute R.recorded a w other, grown]
    exact ⟨off, carried.quiet other _⟩
  · have same : (w.execute R.recorded a step).2 = w := by
      simp only [not_forall, not_and_or, not_not] at other
      obtain ⟨handle, rfl | rfl⟩ := other
      · simp [execute, perform, scan, Scanner.pause, Scanner.halt, off]
      · have some : w.central.registry.connecting.isEmpty = false := by
          simpa using List.ne_nil_of_mem open'
        simp [execute, perform, some]
    rw [same]
    exact ⟨off, .refl _⟩

/-- A scan that is off stays off for as long as an attempt is open. -/
theorem quiet_runAll (R : Radio σ) (duties : List Duty) (off : w.central.scanner.active = false)
    (open' : b ∈ (w.runAll R.recorded duties).central.registry.connecting) :
    (w.runAll R.recorded duties).central.scanner.active = false ∧
      Log.Quiet w.radio.log (w.runAll R.recorded duties).radio.log := by
  refine runAll_induction (P := fun v => b ∈ v.central.registry.connecting →
    v.central.scanner.active = false ∧ Log.Quiet w.radio.log v.radio.log) ?_ ?_ ?_ open'
  · intro d _ step v now open'
    rw [registry_execute] at open'
    obtain ⟨off, quiet⟩ := now open'
    obtain ⟨still, next⟩ := quiet_execute (a := d.address) R step off open'
    exact ⟨still, quiet.trans next⟩
  · intro d _ event v now open'
    have before : b ∈ v.central.registry.connecting :=
      (Registry.narrows_advance (v.policy R.recorded) d.address event v.central.registry).opened b open'
    exact now before
  · exact fun _ => ⟨off, .refl _⟩

theorem active_halt (c : Scanner) (s : σ) (R : Radio σ) : (c.halt R s).1.active = false := by
  unfold Scanner.halt
  split
  · rfl
  · rename_i off
    simpa using off

theorem quiet_halt (R : Radio σ) (c : Scanner) (s : Recorded σ) :
    Log.Quiet s.log (c.halt R.recorded s).2.log := by
  unfold Scanner.halt
  split
  · exact Log.Quiet.of_forall (by simp)
  · exact .refl _

/-- Pausing is the first thing an admission does, so it leaves the scan off for as long as the new
attempt is open. -/
theorem quiet_admission (R : Radio σ)
    (open' : b ∈ (w.runAll R.recorded [.admission a]).central.registry.connecting) :
    (w.runAll R.recorded [.admission a]).central.scanner.active = false ∧
      Log.Quiet w.radio.log (w.runAll R.recorded [.admission a]).radio.log := by
  let paused := w.scan (Scanner.pause R.recorded)
  rw [run_admission] at open' ⊢
  have off : paused.central.scanner.active = false := active_halt w.central.scanner w.radio R.recorded
  have quiet : Log.Quiet w.radio.log paused.radio.log := quiet_halt R w.central.scanner w.radio
  obtain ⟨still, rest⟩ := quiet_runAll R [{ address := a, steps := [.run .connect none] }] off open'
  exact ⟨still, quiet.trans rest⟩

theorem quiet_admitted (R : Radio σ) {data : Bytes} (admits : w.admits a data = true)
    (open' : b ∈ (w.happen R (.operation (.radioEvent (.advertisement a data)))).central.registry.connecting) :
    (w.happen R (.operation (.radioEvent (.advertisement a data)))).central.scanner.active = false ∧
      Log.Quiet w.radio.log (w.happen R (.operation (.radioEvent (.advertisement a data)))).radio.log := by
  rw [happen_admitted R admits] at open' ⊢
  obtain ⟨off, rest⟩ := quiet_admission R open'
  exact ⟨off, Log.Quiet.trans (Log.Quiet.of_forall (by simp)) rest⟩

/-- Whatever happens, except that the caller asks for it, a scan that is off stays off for as long as
an attempt is open. -/
theorem quiet_happen (R : Radio σ) {x : Happening σ} (other : x ≠ .operation .start)
    (off : w.central.scanner.active = false)
    (open' : b ∈ (w.happen R x).central.registry.connecting) :
    (w.happen R x).central.scanner.active = false ∧
      Log.Quiet w.radio.log (w.happen R x).radio.log := by
  have opened := opened_opening R w x
  rw [happen_eq] at open' ⊢
  generalize (w.opening R x).1 = v at opened open' ⊢
  generalize (w.opening R x).2 = duties at opened open' ⊢
  have begun : v.central.scanner.active = false ∧ Log.Quiet w.radio.log v.radio.log := by
    cases opened with
    | started => exact absurd rfl other
    | stopped =>
      exact ⟨active_halt _ w.radio R.recorded, quiet_halt R { w.central.scanner with requested := false } w.radio⟩
    | reset =>
      rw [runAll, List.foldl_nil, registry_reset] at open'
      cases open'
    | sentAway => exact ⟨off, .refl _⟩
    | reached | admitted => exact ⟨off, Log.Quiet.of_forall (by simp)⟩
    | attached _ _ _ _ _ scanner _ grown dials | failed _ _ _ scanner _ grown dials =>
      rw [scanner, grown]
      exact ⟨off, dials.quiet _⟩
    | aside _ _ scanner _ grown apart =>
      rw [scanner, grown]
      exact ⟨off, Exchange.Apart.quiet apart _⟩
  obtain ⟨still, rest⟩ := quiet_runAll R duties begun.1 open'
  exact ⟨still, begun.2.trans rest⟩

/-- A peer that has become known has been admitted. -/
theorem admitted_of_unknown (R : Radio σ) {x : Happening σ}
    (unknown : w.central.registry.contains a = false)
    (known : (w.happen R x).central.registry.contains a = true) :
    ∃ data, x = .operation (.radioEvent (.advertisement a data)) ∧ w.admits a data = true := by
  have opened := opened_opening R w x
  rw [happen_eq] at known
  generalize (w.opening R x).1 = v at opened known
  generalize (w.opening R x).2 = duties at opened known
  have begun := (runAll_shrinks R.recorded duties v).1 a known
  have same : v.central.registry ≠ w.central.registry := by
    intro same
    rw [same, unknown] at begun
    cases begun
  cases opened with
  | started | stopped | sentAway | reached => exact absurd rfl same
  | failed _ _ registry | aside _ registry => exact absurd registry same
  | reset =>
    rw [registry_reset] at begun
    cases begun
  | @admitted b data admits =>
    by_cases here : a = b
    · subst here
      exact ⟨data, rfl, admits⟩
    · have view := Registry.get?_enroll (unknown_of_admits admits) a
      rw [if_neg here] at view
      have contained : (w.central.registry.enroll b).contains a = true := begun
      rw [Registry.contains, view] at contained
      rw [Registry.contains, contained] at unknown
      cases unknown
  | @attached _ _ b p h _ _ here phase bare registry =>
    have view := Registry.get?_attach (h := h) here bare phase a
    rw [registry, Registry.contains, view] at begun
    by_cases same : a = b
    · rw [Registry.contains, same, here] at unknown
      cases unknown
    · rw [if_neg same] at begun
      rw [Registry.contains, begun] at unknown
      cases unknown

end

section Attempts

variable {R : Radio σ} {settings : Settings} {s : σ} {history : List (Happening σ)} {a : Address}

/-- Where an attempt that is open now began, and that it has been open ever since. -/
structure OpenSince (R : Radio σ) (settings : Settings) (s : σ) (history : List (Happening σ))
    (a : Address) (before : List (Happening σ)) (data : Bytes) (after : List (Happening σ)) : Prop where
  split : history = before ++ .operation (.radioEvent (.advertisement a data)) :: after
  unknown : (outcome R settings s before).central.registry.contains a = false
  open' : ∀ more, more <+: after → a ∈ (outcome R settings s
    (before ++ .operation (.radioEvent (.advertisement a data)) :: more)).central.registry.connecting

theorem OpenSince.grow {before after : List (Happening σ)} {data : Bytes} {x : Happening σ}
    (since : OpenSince R settings s history a before data after)
    (still : a ∈ (outcome R settings s (history ++ [x])).central.registry.connecting) :
    OpenSince R settings s (history ++ [x]) a before data (after ++ [x]) where
  split := by simp [since.split]
  unknown := since.unknown
  open' more hm := by
    rcases List.prefix_concat_iff.1 hm with rfl | hm
    · have whole := since.split
      rw [whole] at still
      simpa using still
    · exact since.open' more hm

theorem not_quiet_start {old : Log} {w : World (Recorded σ)} (off : w.central.scanner.active = false)
    (begun : old <+: w.radio.log) :
    ¬ Log.Quiet old (w.happen R (.operation .start)).radio.log := by
  rintro ⟨more, grown, none⟩
  obtain ⟨earlier, begun⟩ := begun
  simp only [happen, Operation.event?, hear_none, step, start, scan, Scanner.start, Scanner.activate, off,
    Bool.false_eq_true, ↓reduceIte, Radio.recorded] at grown
  rw [← begun, List.append_assoc] at grown
  rw [← List.append_cancel_left grown] at none
  exact none _ ⟨_, _, List.mem_append_right _ (List.mem_singleton.2 rfl)⟩

/-- Since an attempt began the radio has been asked to scan only if the caller wanted it; until then the
scan is off, so that the next request reaches the radio. -/
structure HaltedSince (R : Radio σ) (settings : Settings) (s : σ) (history before after : List (Happening σ)) :
    Prop where
  off : Log.Quiet (outcome R settings s before).radio.log (outcome R settings s history).radio.log →
    (outcome R settings s history).central.scanner.active = false
  quiet : Log.Quiet (outcome R settings s before).radio.log (outcome R settings s history).radio.log ↔
    .operation .start ∉ after

theorem HaltedSince.grow {before after : List (Happening σ)} {data : Bytes} {x : Happening σ}
    (halted : HaltedSince R settings s history before after)
    (since : OpenSince R settings s history a before data after)
    (still : a ∈ (outcome R settings s (history ++ [x])).central.registry.connecting) :
    HaltedSince R settings s (history ++ [x]) before (after ++ [x]) := by
  have begun : (outcome R settings s before).radio.log <+: (outcome R settings s history).radio.log := by
    rw [since.split]
    exact prefix_log R settings s before _
  have grown := prefix_log R settings s history [x]
  have earlier := fun now : Log.Quiet (outcome R settings s before).radio.log
    (outcome R settings s (history ++ [x])).radio.log => now.of_prefix begun grown
  by_cases start : x = .operation .start
  · subst start
    have loud : ¬ Log.Quiet (outcome R settings s before).radio.log
        (outcome R settings s (history ++ [.operation .start])).radio.log := fun now => by
      have off := halted.off (earlier now)
      rw [outcome_concat] at now
      exact not_quiet_start off begun now
    exact ⟨fun now => absurd now loud, fun now => absurd now loud, by simp⟩
  · have next := fun now => quiet_happen R start (halted.off now) (by rwa [outcome_concat] at still)
    rw [← outcome_concat] at next
    refine ⟨fun now => (next (earlier now)).1, fun now => ?_, fun none => ?_⟩
    · have none := halted.quiet.1 (earlier now)
      simpa [none] using Ne.symm start
    · have now := halted.quiet.2 fun mem => none (List.mem_append_left _ mem)
      exact now.trans (next now).2

theorem haltedSince_admitted {x : Happening σ}
    (unknown : (outcome R settings s history).central.registry.contains a = false)
    (open' : a ∈ (outcome R settings s (history ++ [x])).central.registry.connecting) :
    ∃ data, OpenSince R settings s (history ++ [x]) a history data [] ∧
      HaltedSince R settings s (history ++ [x]) history [] := by
  have there : (outcome R settings s (history ++ [x])).central.registry.contains a = true :=
    (mem_connecting_outcome.1 open').1
  rw [outcome_concat] at there
  obtain ⟨data, rfl, admits⟩ := admitted_of_unknown R unknown there
  have since : OpenSince R settings s
      (history ++ [.operation (.radioEvent (.advertisement a data))]) a history data [] :=
    ⟨rfl, unknown, fun more hm => by rwa [List.prefix_nil.1 hm]⟩
  rw [outcome_concat] at open'
  obtain ⟨off, quiet⟩ := quiet_admitted R admits open'
  rw [← outcome_concat] at off quiet
  exact ⟨data, since, fun _ => off, fun _ => List.not_mem_nil, fun _ => quiet⟩

/-- The radio is not asked to scan during an attempt, and the scan is off, for exactly as long as the
caller does not ask for it. -/
theorem scan_off_until_start (R : Radio σ) (settings : Settings) (s : σ) (history : List (Happening σ))
    (a : Address) (open' : a ∈ (outcome R settings s history).central.registry.connecting) :
    ∃ before data after, OpenSince R settings s history a before data after ∧
      ((outcome R settings s history).central.scanner.active = false ∧
        Log.Quiet (outcome R settings s before).radio.log (outcome R settings s history).radio.log ↔
          .operation .start ∉ after) := by
  suffices both : ∃ before data after, OpenSince R settings s history a before data after ∧
      HaltedSince R settings s history before after by
    obtain ⟨before, data, after, since, halted⟩ := both
    refine ⟨before, data, after, since, fun now => halted.quiet.1 now.2, fun none => ?_⟩
    have quiet := halted.quiet.2 none
    exact ⟨halted.off quiet, quiet⟩
  induction history using List.reverseRecOn with
  | nil => cases open'
  | append_singleton history x ih =>
    by_cases known : (outcome R settings s history).central.registry.contains a = true
    · have evolves := evolves_happen R (outcome R settings s history) x
      rw [← outcome_concat] at evolves
      obtain ⟨before, data, after, since, halted⟩ := ih (evolves.opened a open' known)
      exact ⟨before, data, after ++ [x], since.grow open', halted.grow since open'⟩
    · have unknown : (outcome R settings s history).central.registry.contains a = false := by simpa using known
      obtain ⟨data, since, halted⟩ := haltedSince_admitted unknown open'
      exact ⟨history, data, [], since, halted⟩

/-- A request lands while the attempt waits for its link, and the radio scans. -/
theorem scan_during_attempt :
    let w := outcome SimulatedRadio.radio Encounter.settings {}
      [.operation .start, .operation (.radioEvent (.advertisement ⟨"a"⟩ invitation)), .operation .start]
    w.central.isConnecting ⟨"a"⟩ = true ∧ w.central.isScanning = true := by
  constructor <;> cbv

theorem scan_off_for_one_attempt :
    let adverted : Happening SimulatedRadio := .operation (.radioEvent (.advertisement ⟨"a"⟩ invitation))
    let history := [.operation .start, adverted, .operation .dispatchNext]
    ⟨"a"⟩ ∈ (outcome SimulatedRadio.radio Encounter.settings {} history).central.registry.connecting ∧
      ∃ before data after,
        OpenSince SimulatedRadio.radio Encounter.settings {} history ⟨"a"⟩ before data after ∧
          ((outcome SimulatedRadio.radio Encounter.settings {} history).central.scanner.active = false ∧
            Log.Quiet (outcome SimulatedRadio.radio Encounter.settings {} before).radio.log
              (outcome SimulatedRadio.radio Encounter.settings {} history).radio.log ↔
            .operation .start ∉ after) := by
  intro adverted history
  have open' : ⟨"a"⟩ ∈
      (outcome SimulatedRadio.radio Encounter.settings {} history).central.registry.connecting := by
    have only : (outcome SimulatedRadio.radio Encounter.settings {} history).central.registry.connecting =
      [⟨"a"⟩] := by cbv
    simp [only]
  exact ⟨open', scan_off_until_start SimulatedRadio.radio Encounter.settings {} history ⟨"a"⟩ open'⟩

end Attempts

/-- A scan that is wanted is on, unless an attempt is open or resuming it is still to be done. A radio
that refused to scan is excused. -/
def ScanUp (steps : List Step) (w : World (Recorded σ)) : Prop :=
  ¬ w.radio.log.AsksScan false → w.central.scanner.requested = true →
    w.central.registry.connecting = [] →
      w.central.scanner.active = true ∨ ∃ handle, .run .resumeScanning handle ∈ steps

section

variable {R : Radio σ} {a : Address} {w : World (Recorded σ)}

theorem active_activate (R : Radio σ) (c : Scanner) (s : Recorded σ) :
    (c.activate R.recorded s).1.active = true ∨ (c.activate R.recorded s).2.log.AsksScan false := by
  unfold Scanner.activate
  split
  · rename_i on
    exact Or.inl on
  · cases answer : (R.ask (.startScan c.mode c.service) s.state).1 with
    | true => exact Or.inl answer
    | false =>
      refine Or.inr ⟨c.mode, c.service, ?_⟩
      simp [Radio.recorded, answer]

structure Resuming (steps : List Step) (w : World (Recorded σ)) : Prop where
  orderly : w.central.registry.Orderly
  paused : ∀ handle, .run .pauseScanning handle ∈ steps → w.central.registry.connecting ≠ []
  scanUp : w.ScanUp steps

theorem Resuming.execute {step : Step} {steps : List Step} (h : w.Resuming (step :: steps)) (R : Radio σ)
    (a : Address) : (w.execute R.recorded a step).2.Resuming steps := by
  have registry := registry_execute R.recorded a step w
  obtain ⟨log, grown, -⟩ := carried_execute R a step w
  have excused : ¬ (w.execute R.recorded a step).2.radio.log.AsksScan false →
      ¬ w.radio.log.AsksScan false := fun none refused =>
    none (refused.mono (grown ▸ List.subset_append_left _ _))
  constructor
  case orderly =>
    rw [registry]
    exact h.orderly
  case paused =>
    rw [registry]
    exact fun handle mem => h.paused handle (List.mem_cons_of_mem _ mem)
  case scanUp =>
    intro accepts wanted clear
    rw [registry] at clear
    by_cases other : ∀ handle, step ≠ .run .pauseScanning handle ∧ step ≠ .run .resumeScanning handle
    · rw [scanner_execute R.recorded a w other] at wanted ⊢
      refine (h.scanUp (excused accepts) wanted clear).imp_right fun ⟨handle, mem⟩ => ⟨handle, ?_⟩
      exact (List.mem_cons.1 mem).resolve_left fun same => (other handle).2 same.symm
    · simp only [not_forall, not_and_or, not_not] at other
      obtain ⟨handle, rfl | rfl⟩ := other
      · exact absurd clear (h.paused handle List.mem_cons_self)
      · left
        have resumed : (w.execute R.recorded a (.run .resumeScanning handle)).2 =
            w.scan (Scanner.resume R.recorded) := by simp [World.execute, perform, clear]
        rw [resumed] at accepts wanted ⊢
        have still : w.central.scanner.requested = true := by
          revert wanted
          simp only [scan, Scanner.resume]
          split
          · rename_i requested
            exact fun _ => requested
          · exact id
        simp only [scan, Scanner.resume, still, ↓reduceIte] at accepts ⊢
        exact (active_activate R w.central.scanner w.radio).resolve_right accepts

theorem Resuming.transition {event : PeerEvent} (h : w.Resuming []) (R : Radio σ)
    (linked : event = .linkUp → ∀ p, w.central.registry.get? a = some p → p.handle.isSome) :
    (w.transition R.recorded a event).2.Resuming (w.transition R.recorded a event).1 := by
  constructor
  case orderly => exact h.orderly.advance _ a event linked
  case paused =>
    exact fun handle mem => absurd mem (Registry.unpaused_advance h.orderly _ a event handle)
  case scanUp =>
    intro accepts wanted clear
    by_cases before : w.central.registry.connecting = []
    · left
      exact (h.scanUp accepts wanted before).resolve_right (by simp)
    · right
      exact Registry.resumes_advance h.orderly _ a event before clear

theorem Resuming.settle {steps : List Step} (h : w.Resuming steps) (R : Radio σ) (a : Address) :
    (w.settle R.recorded a steps []).Resuming [] := by
  refine settle_recorded (I := fun steps _ v => v.Resuming steps) ?_ ?_ h
  · exact fun step steps events v log event now _ _ _ => now.execute R a
  · refine fun event events v followUp now => now.transition R fun up => ?_
    rw [up] at followUp
    cases followUp

theorem Resuming.drive {event : PeerEvent} (h : w.Resuming []) (R : Radio σ)
    (linked : event = .linkUp → ∀ p, w.central.registry.get? a = some p → p.handle.isSome) :
    (w.drive R.recorded a event).Resuming [] := by
  rw [drive_eq]
  exact (h.transition R linked).settle R a

theorem Resuming.congr {v : World (Recorded σ)} {log : Log} (h : w.Resuming [])
    (orderly : v.central.registry.Orderly)
    (connecting : v.central.registry.connecting = w.central.registry.connecting)
    (scanner : v.central.scanner = w.central.scanner) (grown : v.radio.log = w.radio.log ++ log) :
    v.Resuming [] := by
  refine ⟨orderly, by simp, fun accepts wanted clear => ?_⟩
  rw [scanner] at wanted ⊢
  rw [connecting] at clear
  refine h.scanUp (fun refused => accepts (refused.mono ?_)) wanted clear
  rw [grown]
  exact List.subset_append_left _ _

theorem Resuming.runAll {duties : List Duty} (h : w.Resuming []) (R : Radio σ)
    (tells : ∀ d ∈ duties, d = .tell d.address .disconnectRequested) :
    (w.runAll R.recorded duties).Resuming [] := by
  induction duties generalizing w with
  | nil => exact h
  | cons d duties ih =>
    refine ih ?_ fun e he => tells e (List.mem_cons_of_mem _ he)
    rw [tells d List.mem_cons_self, Duty.run_tell]
    exact h.drive R fun up => by cases up

theorem Resuming.happen (h : w.Resuming []) (R : Radio σ) (x : Happening σ) :
    (w.happen R x).Resuming [] := by
  have opened := opened_opening R w x
  rw [happen_eq]
  generalize (w.opening R x).1 = v at opened ⊢
  generalize (w.opening R x).2 = duties at opened ⊢
  cases opened with
  | started =>
    refine ⟨h.orderly, by simp, fun accepts _ _ => Or.inl ?_⟩
    exact (active_activate R { w.central.scanner with requested := true } w.radio).resolve_right accepts
  | stopped =>
    have stopped : (w.scan (Scanner.stop R.recorded)).Resuming [] := by
      refine ⟨h.orderly, by simp, fun _ wanted => ?_⟩
      simp only [scan, Scanner.stop, Scanner.halt] at wanted
      split at wanted <;> cases wanted
    exact stopped.runAll R Duty.sent_away
  | reset order =>
    have central := central_reset R w order
    have empty := Registry.orderly_empty
    show (w.reset R.recorded order).Resuming []
    refine ⟨?_, by simp, fun _ wanted => ?_⟩
    · rw [central]
      exact empty
    · rw [central] at wanted
      cases wanted
  | sentAway => exact h.drive R fun up => by cases up
  | @reached event a told reaches =>
    have heard := h.congr (v := w.hear (some event)) h.orderly rfl rfl rfl
    exact heard.drive R (reaches.linked h.orderly)
  | @admitted a data admits =>
    have unknown := unknown_of_admits admits
    have some : (w.central.registry.enroll a).connecting ≠ [] := by simp [Registry.enroll, Registry.lodge]
    refine Resuming.settle ⟨h.orderly.enroll unknown, fun _ _ => some, fun _ _ clear => ?_⟩ R a
    exact absurd clear some
  | attached _ here phase bare registry scanner _ grown =>
    have orderly : v.central.registry.Orderly := registry ▸ h.orderly.attach here bare phase
    refine h.congr orderly ?_ scanner grown
    show v.central.registry.connecting = w.central.registry.connecting
    rw [registry, Registry.attach_eq here bare phase]
    rfl
  | failed _ _ registry scanner _ grown =>
    have told := h.congr (registry ▸ h.orderly) (by rw [registry]) scanner grown
    exact told.drive R fun up => by cases up
  | aside _ registry scanner _ grown =>
    have aside := h.congr (registry ▸ h.orderly) (by rw [registry]) scanner grown
    exact aside

end

theorem resuming_outcome (R : Radio σ) (settings : Settings) (s : σ) (history : List (Happening σ)) :
    (outcome R settings s history).Resuming [] := by
  induction history using List.reverseRecOn with
  | nil => exact ⟨Registry.orderly_empty, by simp, fun _ wanted => by cases wanted⟩
  | append_singleton history x ih =>
    rw [outcome_concat]
    exact ih.happen R x

/-- Scanning always comes back. On a radio that accepts every request to scan, wherever a run leads
the scan is on if it is wanted and no attempt is open. -/
theorem scan_on_between_attempts (R : Radio σ) (settings : Settings) (s : σ)
    (history : List (Happening σ))
    (accepts : ∀ mode service,
      .asked (.startScan mode service) false ∉ (outcome R settings s history).radio.log)
    (wanted : (outcome R settings s history).central.scanner.requested = true)
    (clear : (outcome R settings s history).central.registry.connecting = []) :
    (outcome R settings s history).central.isScanning = true := by
  have refused : ¬ (outcome R settings s history).radio.log.AsksScan false := fun ⟨mode, service, mem⟩ =>
    accepts mode service mem
  have scanUp := (resuming_outcome R settings s history).scanUp refused wanted clear
  exact scanUp.resolve_right (by simp)

/-- In the encounter both attempts are over, the second without a connection. -/
theorem scan_on_after_encounter :
    let w := outcome SimulatedRadio.radio Encounter.settings {} Encounter.history
    (∀ mode service, .asked (.startScan mode service) false ∉ w.radio.log) ∧
      w.central.scanner.requested = true ∧ w.central.registry.connecting = [] ∧
      w.central.isScanning = true := by
  have accepts : ∀ mode service, .asked (.startScan mode service) false ∉
      (outcome SimulatedRadio.radio Encounter.settings {} Encounter.history).radio.log := by
    have none : ((outcome SimulatedRadio.radio Encounter.settings {} Encounter.history).radio.log.filter
        (· matches .asked (.startScan ..) false)) = [] := by cbv
    intro mode service mem
    have refused := List.filter_eq_nil_iff.1 none _ mem
    simp at refused
  have wanted : (outcome SimulatedRadio.radio Encounter.settings {}
      Encounter.history).central.scanner.requested = true := by cbv
  have clear : (outcome SimulatedRadio.radio Encounter.settings {}
      Encounter.history).central.registry.connecting = [] := by cbv
  exact ⟨accepts, wanted, clear,
    scan_on_between_attempts SimulatedRadio.radio Encounter.settings {} Encounter.history accepts wanted clear⟩

end World

end RadioCentral
