import RadioCentral.Proofs.ScanControl
import RadioCentral.Proofs.Scanning

/-!
The scan in the course of a run. Whether it is on is what the record of the radio says, unless it is
forgotten while it is on; whether it is wanted is up to the caller alone.
-/
namespace RadioCentral

open Registry (Step)

variable {σ : Type}

/-- What is not about the scan does not switch it. -/
theorem Log.scans_append {log more : Log} (aside : ∀ e ∈ more, ¬ e.AboutScan) :
    (log ++ more).Scans ↔ log.Scans := by
  constructor
  · rintro ⟨before, mode, service, after, split, still⟩
    have old : Exchange.asked (.startScan mode service) true ∉ more := fun mem =>
      aside _ mem (Exchange.aboutScan_asked _ rfl)
    rcases List.append_eq_append_iff.1 split with ⟨rest, -, rfl⟩ | ⟨rest, rfl, tail⟩
    · exact absurd (by simp) old
    · cases rest with
      | nil => exact absurd (by rw [show more = _ from tail.symm]; simp) old
      | cons e rest =>
        obtain ⟨rfl, rfl⟩ := List.cons.inj tail
        exact ⟨before, mode, service, rest, rfl, fun answer mem => still answer (List.mem_append_left _ mem)⟩
  · rintro ⟨before, mode, service, after, rfl, still⟩
    refine ⟨before, mode, service, after ++ more, by simp, fun answer mem => ?_⟩
    rcases List.mem_append.1 mem with mem | mem
    · exact still answer mem
    · exact aside _ mem (Exchange.aboutScan_asked _ rfl)

theorem Exchange.not_aboutScan {request : Request} {answer : Bool} {h : Handle}
    (named : request.handle? = some h) : ¬ (asked request answer).AboutScan := by
  rintro ⟨_, _, same, unnamed⟩
  cases same
  rw [named] at unnamed
  cases unnamed

theorem Exchange.Apart.not_aboutScan {e : Exchange} (apart : e.Apart) : ¬ e.AboutScan := by
  cases apart with
  | told => rintro ⟨_, _, same, -⟩; cases same
  | write => exact Exchange.not_aboutScan rfl

theorem Dials.not_aboutScan {a : Address} {log : Log} {answer : Option Handle} (dials : Dials a log answer) :
    ∀ e ∈ log, ¬ e.AboutScan := by
  induction dials with
  | exhausted => simp
  | accepted route h => simp [Exchange.AboutScan]
  | refused route _ ih => exact List.forall_mem_cons.2 ⟨by simp [Exchange.AboutScan], ih⟩

/-- Only pausing and resuming are about the scan. -/
theorem Carried.not_aboutScan {step : Step} {log : Log} {event : Option PeerEvent}
    (carried : Carried step log event)
    (other : ∀ handle, step ≠ .run .pauseScanning handle ∧ step ≠ .run .resumeScanning handle) :
    ∀ e ∈ log, ¬ e.AboutScan := by
  cases carried with
  | scan what =>
    rcases what with rfl | rfl
    · exact absurd rfl (other _).1
    · exact absurd rfl (other _).2
  | asked asks => cases asks <;> exact List.forall_mem_singleton.2 (Exchange.not_aboutScan rfl)
  | released => exact List.forall_mem_singleton.2 (Exchange.not_aboutScan rfl)
  | subscribed switched | unsubscribed switched =>
    cases switched with
    | bare => exact List.forall_mem_singleton.2 (Exchange.not_aboutScan rfl)
    | written | refused =>
      exact List.forall_mem_cons.2 ⟨Exchange.not_aboutScan rfl,
        List.forall_mem_singleton.2 (Exchange.not_aboutScan rfl)⟩
  | queued | unqueued | silent | unlinked => simp

namespace World

def ScanTold (w : World (Recorded σ)) : Prop := w.central.scanner.active = true ↔ w.radio.log.Scans

section

variable {R : Radio σ} {w v : World (Recorded σ)}

theorem ScanTold.aside (told : w.ScanTold) {log : Log} (scanner : v.central.scanner = w.central.scanner)
    (grown : v.radio.log = w.radio.log ++ log) (aside : ∀ e ∈ log, ¬ e.AboutScan) : v.ScanTold := by
  rw [ScanTold, scanner, grown, Log.scans_append aside]
  exact told

theorem ScanTold.congr (told : w.ScanTold) (scanner : v.central.scanner = w.central.scanner)
    (log : v.radio.log = w.radio.log) : v.ScanTold := by
  rw [ScanTold, scanner, log]
  exact told

theorem ScanTold.serve (told : w.ScanTold) (R : Radio σ) (call : ScanCall) :
    (w.scan fun c s => c.serve R.recorded call s).ScanTold :=
  (Scanner.switches_serve R w.central.scanner w.radio call).active_iff told

theorem ScanTold.execute (told : w.ScanTold) (R : Radio σ) (a : Address) (step : Step) :
    (w.execute R.recorded a step).2.ScanTold := by
  by_cases other : ∀ handle, step ≠ .run .pauseScanning handle ∧ step ≠ .run .resumeScanning handle
  · obtain ⟨log, grown, carried⟩ := carried_execute R a step w
    exact told.aside (scanner_execute R.recorded a w other) grown (carried.not_aboutScan other)
  · simp only [not_forall, not_and_or, not_not] at other
    obtain ⟨handle, rfl | rfl⟩ := other
    · exact told.serve R .pause
    · simp only [World.execute, perform]
      split
      · exact told.serve R .resume
      · exact told

theorem ScanTold.runAll (told : w.ScanTold) (R : Radio σ) (duties : List Duty) :
    (w.runAll R.recorded duties).ScanTold :=
  runAll_induction (fun d _ step _ now => now.execute R d.address step) (fun _ _ _ _ now => now) told

/-- Only forgetting the scan while it is on parts what is kept of it from what the radio does. -/
theorem ScanTold.happen (told : w.ScanTold) (R : Radio σ) {x : Happening σ} (kept : ¬ x.Resets) :
    (w.happen R x).ScanTold := by
  have opened := opened_opening R w x
  rw [happen_eq]
  refine ScanTold.runAll ?_ R _
  generalize (w.opening R x).1 = v at opened ⊢
  generalize (w.opening R x).2 = duties at opened
  cases opened with
  | started => exact told.serve R .start
  | stopped => exact told.serve R .stop
  | reset order => exact absurd ⟨order, rfl⟩ kept
  | sentAway => exact told
  | reached | admitted => exact told.aside rfl rfl (by simp [Exchange.AboutScan])
  | attached _ _ _ _ _ scanner _ grown dials | failed _ _ _ scanner _ grown dials =>
    exact told.aside scanner grown dials.not_aboutScan
  | aside _ _ scanner _ grown apart => exact told.aside scanner grown fun e mem => (apart e mem).not_aboutScan

/-- Forgetting a scan that is off is no loss. -/
theorem ScanTold.reset (told : w.ScanTold) (R : Radio σ) (order : Registry.Order)
    (off : w.central.scanner.active = false) :
    (w.happen R (.operation (.reset order))).ScanTold := by
  obtain ⟨log, grown, -, requests⟩ := log_reset R w order
  have releases : ∀ e ∈ log, ¬ e.AboutScan := by
    rintro e mem ⟨request, answer, rfl, unnamed⟩
    have asked : request ∈ log.requests := List.mem_filterMap.2 ⟨_, mem, rfl⟩
    rw [requests] at asked
    obtain ⟨h, -, rfl⟩ := List.mem_map.1 asked
    cases unnamed
  have silent : ¬ (w.reset R.recorded order).radio.log.Scans := by
    rw [grown, Log.scans_append releases]
    exact fun scans => Bool.false_ne_true (off.symm.trans (told.2 scans))
  have same : w.happen R (.operation (.reset order)) = w.reset R.recorded order := by
    simp only [World.happen, Operation.event?, hear_none, step]
  rw [same, ScanTold, central_reset]
  exact iff_of_false Bool.false_ne_true silent

theorem requested_execute (R : Radio σ) (a : Address) (step : Step) (w : World (Recorded σ)) :
    (w.execute R.recorded a step).2.central.scanner.requested = w.central.scanner.requested := by
  by_cases other : ∀ handle, step ≠ .run .pauseScanning handle ∧ step ≠ .run .resumeScanning handle
  · rw [scanner_execute R.recorded a w other]
  · simp only [not_forall, not_and_or, not_not] at other
    obtain ⟨handle, rfl | rfl⟩ := other
    · exact Scanner.requested_serve R.recorded w.central.scanner w.radio .pause
    · simp only [World.execute, perform]
      split
      · exact Scanner.requested_serve R.recorded w.central.scanner w.radio .resume
      · rfl

/-- Whether a scan is wanted is up to the caller. -/
theorem requested_happen (R : Radio σ) {x : Happening σ} (w : World (Recorded σ))
    (other : x ≠ .operation .start ∧ ¬ x.Stops ∧ ¬ x.Resets) :
    (w.happen R x).central.scanner.requested = w.central.scanner.requested := by
  have opened := opened_opening R w x
  rw [happen_eq]
  generalize (w.opening R x).1 = v at opened ⊢
  generalize (w.opening R x).2 = duties at opened ⊢
  have begun : v.central.scanner = w.central.scanner := by
    cases opened with
    | started => exact absurd rfl other.1
    | stopped order => exact absurd ⟨order, rfl⟩ other.2.1
    | reset order => exact absurd ⟨order, rfl⟩ other.2.2
    | sentAway | reached | admitted => rfl
    | attached _ _ _ _ _ scanner | failed _ _ _ scanner | aside _ _ scanner => exact scanner
  refine runAll_induction (P := fun u => u.central.scanner.requested = w.central.scanner.requested)
    (fun d _ step u now => ?_) (fun _ _ _ _ now => now) (by rw [begun])
  exact (requested_execute R d.address step u).trans now

end

end World

end RadioCentral
