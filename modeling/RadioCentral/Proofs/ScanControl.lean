import Mathlib.Data.List.Induction
import RadioCentral.Proofs.Run.Recorder

/-!
The scan and the radio that carries it out. Two flags are kept beside a radio that has a state of its own
and may refuse to scan: one says what is wanted, the other mirrors the radio. It is switched on only when
it is off and off only when it is on, so the mirror is never wrong.
-/
namespace RadioCentral

variable {σ : Type}

namespace Log

/-- The latest accepted request to scan has not been followed by a stop. -/
def Scans (log : Log) : Prop :=
  ∃ before mode service after, log = before ++ .asked (.startScan mode service) true :: after ∧
    ∀ answer, .asked .stopScan answer ∉ after

/-- A radio is asked to scan only while it does not, and to stop only while it does. -/
def SwitchedInTurn (log : Log) : Prop :=
  ∀ before e after, log = before ++ e :: after →
    (∀ mode service answer, e = .asked (.startScan mode service) answer → ¬ Scans before) ∧
      ∀ answer, e = .asked .stopScan answer → Scans before

variable {log : Log}

theorem not_scans_nil : ¬ Scans [] := by
  rintro ⟨before, mode, service, after, split, -⟩
  simp at split

theorem scans_start (mode : ScanMode) (service : Uuid) (answer : Bool) :
    Scans (log ++ [.asked (.startScan mode service) answer]) ↔ answer = true ∨ Scans log := by
  constructor
  · rintro ⟨before, mode', service', after, split, still⟩
    rcases split_concat split with ⟨same, -⟩ | ⟨rest, rfl, rfl⟩
    · cases same
      exact Or.inl rfl
    · exact Or.inr ⟨before, mode', service', rest, rfl, fun a mem => still a (List.mem_append_left _ mem)⟩
  · rintro (rfl | ⟨before, mode', service', after, rfl, still⟩)
    · exact ⟨log, mode, service, [], rfl, by simp⟩
    · refine ⟨before, mode', service', after ++ [.asked (.startScan mode service) answer], by simp, ?_⟩
      simpa using still

theorem not_scans_stop (answer : Bool) : ¬ Scans (log ++ [.asked .stopScan answer]) := by
  rintro ⟨before, mode, service, after, split, still⟩
  rcases split_concat split with ⟨same, -⟩ | ⟨rest, rfl, -⟩
  · cases same
  · exact still answer (by simp)

theorem switchedInTurn_nil : SwitchedInTurn [] := fun before e after split => by simp at split

theorem SwitchedInTurn.concat {e : Exchange} (inTurn : SwitchedInTurn log)
    (start : ∀ mode service answer, e = .asked (.startScan mode service) answer → ¬ Scans log)
    (stop : ∀ answer, e = .asked .stopScan answer → Scans log) : SwitchedInTurn (log ++ [e]) := by
  intro before x after split
  rcases split_concat split with ⟨rfl, rfl⟩ | ⟨rest, -, now⟩
  · exact ⟨start, stop⟩
  · exact inTurn before x rest now

end Log

inductive ScanCall where
  | start
  | stop
  | pause
  | resume
  deriving DecidableEq, Repr

def ScanCall.wants (before : Bool) : ScanCall → Bool
  | start => true
  | stop => false
  | pause | resume => before

def Wanted (calls : List ScanCall) : Prop :=
  ∃ before after, calls = before ++ .start :: after ∧ .stop ∉ after

theorem not_wanted_nil : ¬ Wanted [] := by
  rintro ⟨before, after, split, -⟩
  simp at split

theorem wanted_concat (calls : List ScanCall) (call : ScanCall) :
    Wanted (calls ++ [call]) ↔ call = .start ∨ Wanted calls ∧ call ≠ .stop := by
  constructor
  · rintro ⟨before, after, split, still⟩
    rcases split_concat split with ⟨same, -⟩ | ⟨rest, rfl, rfl⟩
    · exact Or.inl same.symm
    · rw [List.mem_append, List.mem_singleton, not_or] at still
      exact Or.inr ⟨⟨before, rest, rfl, still.1⟩, Ne.symm still.2⟩
  · rintro (rfl | ⟨⟨before, after, rfl, still⟩, other⟩)
    · exact ⟨calls, [], rfl, List.not_mem_nil⟩
    · refine ⟨before, after ++ [call], by simp, ?_⟩
      rw [List.mem_append, List.mem_singleton, not_or]
      exact ⟨still, Ne.symm other⟩

namespace Scanner

def serve (R : Radio σ) (call : ScanCall) (c : Scanner) (s : σ) : Scanner × σ :=
  match call with
  | .start => c.start R s
  | .stop => c.stop R s
  | .pause => c.pause R s
  | .resume => c.resume R s

def serveAll (R : Radio σ) (calls : List ScanCall) (c : Scanner) (s : σ) : Scanner × σ :=
  calls.foldl (fun x call => x.1.serve R call x.2) (c, s)

inductive Switches (c : Scanner) (r : Recorded σ) : Scanner → Recorded σ → Prop where
  | leave (requested : Bool) : Switches c r { c with requested } r
  | start {r' : Recorded σ} (requested : Bool) (off : c.active = false) (answer : Bool)
      (log : r'.log = r.log ++ [.asked (.startScan c.mode c.service) answer]) :
      Switches c r { c with requested, active := answer } r'
  | stop {r' : Recorded σ} (requested : Bool) (on : c.active = true) (answer : Bool)
      (log : r'.log = r.log ++ [.asked .stopScan answer]) :
      Switches c r { c with requested, active := false } r'

section

variable (R : Radio σ) (c : Scanner) (r : Recorded σ) (s : σ) (call : ScanCall)

theorem switches_activate (requested : Bool) :
    Switches c r (({ c with requested } : Scanner).activate R.recorded r).1
      (({ c with requested } : Scanner).activate R.recorded r).2 := by
  unfold activate
  split
  · exact .leave requested
  case isFalse off => exact .start requested (by simpa using off) _ rfl

theorem switches_halt (requested : Bool) :
    Switches c r (({ c with requested } : Scanner).halt R.recorded r).1
      (({ c with requested } : Scanner).halt R.recorded r).2 := by
  unfold halt
  split
  case isTrue on => exact .stop requested on _ rfl
  · exact .leave requested

/-- Every call switches the scan at most once. -/
theorem switches_serve : Switches c r (c.serve R.recorded call r).1 (c.serve R.recorded call r).2 := by
  cases call with
  | start => exact switches_activate R c r true
  | stop => exact switches_halt R c r false
  | pause => exact switches_halt R c r c.requested
  | resume =>
    simp only [serve, resume]
    split
    · exact switches_activate R c r c.requested
    · exact .leave c.requested

theorem requested_activate : (c.activate R s).1.requested = c.requested := by
  unfold activate
  split <;> rfl

theorem requested_halt : (c.halt R s).1.requested = c.requested := by
  unfold halt
  split <;> rfl

theorem requested_serve : (c.serve R call s).1.requested = call.wants c.requested := by
  cases call with
  | start => exact requested_activate R { c with requested := true } s
  | stop => exact requested_halt R { c with requested := false } s
  | pause => exact requested_halt R c s
  | resume =>
    simp only [serve, resume]
    split
    · exact requested_activate R c s
    · rfl

theorem active_activate : (c.activate R s).1.active = (c.active || (R.ask (.startScan c.mode c.service) s).1) := by
  unfold activate
  split
  case isTrue on => simp [on]
  case isFalse off => simp [off]

theorem active_halt : (c.halt R s).1.active = false := by
  unfold halt
  split
  · rfl
  case isFalse off => simpa using off

/-- Only a refusal keeps a start, or a resumption of a wanted scan, from switching it on. -/
theorem active_serve : (c.serve R call s).1.active =
    match call with
    | .start => c.active || (R.ask (.startScan c.mode c.service) s).1
    | .resume => c.active || (c.requested && (R.ask (.startScan c.mode c.service) s).1)
    | .stop | .pause => false := by
  cases call with
  | start => exact active_activate R { c with requested := true } s
  | stop => exact active_halt R { c with requested := false } s
  | pause => exact active_halt R c s
  | resume =>
    simp only [serve, resume]
    split
    case isTrue wanted => simp [active_activate, wanted]
    case isFalse unwanted => simp [unwanted]

theorem wanted_serve (wanted : c.active = true → c.requested = true) :
    (c.serve R call s).1.active = true → (c.serve R call s).1.requested = true := by
  rw [active_serve, requested_serve]
  cases call with
  | start => exact fun _ => rfl
  | stop | pause => exact fun on => absurd on Bool.false_ne_true
  | resume =>
    rw [Bool.or_eq_true, Bool.and_eq_true]
    exact fun on => on.elim wanted fun resumed => resumed.1

theorem activate_again
    (same : (R.ask (.startScan c.mode c.service) (c.activate R s).2).1 =
      (R.ask (.startScan c.mode c.service) s).1) :
    ((c.activate R s).1.activate R (c.activate R s).2).1 = (c.activate R s).1 := by
  by_cases on : c.active = true
  · simp [activate, on]
  · cases answer : (R.ask (.startScan c.mode c.service) s).1 with
    | true => simp [activate, on, answer]
    | false =>
      simp only [activate, on, answer, Bool.false_eq_true, ↓reduceIte] at same ⊢
      rw [same]

theorem halt_of_off (off : c.active = false) : c.halt R s = (c, s) := by simp [halt, off]

theorem set_requested (requested : Bool) (now : c.requested = requested) : { c with requested } = c := by
  subst now
  rfl

/-- A call made again changes nothing, unless the radio has come to answer otherwise. -/
theorem serve_again
    (same : call = .start ∨ call = .resume →
      (R.ask (.startScan c.mode c.service) (c.serve R call s).2).1 =
        (R.ask (.startScan c.mode c.service) s).1) :
    ((c.serve R call s).1.serve R call (c.serve R call s).2).1 = (c.serve R call s).1 := by
  have requested := requested_serve R c s call
  have active := active_serve R c s call
  cases call with
  | start =>
    simp only [serve, start] at requested ⊢
    rw [set_requested _ true requested]
    exact activate_again R { c with requested := true } s (same (Or.inl rfl))
  | stop =>
    simp only [serve, stop] at requested active ⊢
    rw [set_requested _ false requested, halt_of_off _ _ _ active]
  | pause => exact congrArg Prod.fst (halt_of_off R _ _ active)
  | resume =>
    by_cases wanted : c.requested = true
    · have still : (c.activate R s).1.requested = true := (requested_activate R c s).trans wanted
      simp only [serve, resume, wanted, still, ↓reduceIte] at same ⊢
      exact activate_again R c s (same (Or.inr trivial))
    · simp [serve, resume, wanted]

end

/-- What holds of a scan and of the record of its radio after the calls it was told. -/
structure Mirrors (calls : List ScanCall) (c : Scanner) (r : Recorded σ) : Prop where
  active : c.active = true ↔ r.log.Scans
  inTurn : r.log.SwitchedInTurn
  wanted : c.active = true → c.requested = true
  requested : c.requested = true ↔ Wanted calls

section

variable {calls : List ScanCall} {c c' : Scanner} {r r' : Recorded σ}

theorem Switches.active_iff (switches : Switches c r c' r') (now : c.active = true ↔ r.log.Scans) :
    c'.active = true ↔ r'.log.Scans := by
  cases switches with
  | leave => exact now
  | start requested off answer log =>
    have silent : ¬ r.log.Scans := fun scans => by simp [now.2 scans] at off
    rw [log, Log.scans_start]
    exact (or_iff_left silent).symm
  | stop requested on answer log =>
    rw [log]
    exact iff_of_false Bool.false_ne_true (Log.not_scans_stop answer)

theorem Switches.inTurn (switches : Switches c r c' r') (now : c.active = true ↔ r.log.Scans)
    (inTurn : r.log.SwitchedInTurn) : r'.log.SwitchedInTurn := by
  cases switches with
  | leave => exact inTurn
  | start requested off answer log =>
    rw [log]
    refine inTurn.concat (fun _ _ _ _ scans => ?_) fun _ same => by cases same
    simp [now.2 scans] at off
  | stop requested on answer log =>
    rw [log]
    exact inTurn.concat (fun _ _ _ same => by cases same) fun _ _ => now.1 on

theorem Mirrors.serve (mirrors : Mirrors calls c r) (R : Radio σ) (call : ScanCall) :
    Mirrors (calls ++ [call]) (c.serve R.recorded call r).1 (c.serve R.recorded call r).2 := by
  have switches := switches_serve R c r call
  constructor
  case active => exact switches.active_iff mirrors.active
  case inTurn => exact switches.inTurn mirrors.active mirrors.inTurn
  case wanted => exact wanted_serve R.recorded c r call mirrors.wanted
  case requested =>
    rw [requested_serve, wanted_concat, ← mirrors.requested]
    cases call <;> simp [ScanCall.wants]

end

theorem serveAll_concat (R : Radio σ) (calls : List ScanCall) (call : ScanCall) (c : Scanner) (s : σ) :
    serveAll R (calls ++ [call]) c s =
      (serveAll R calls c s).1.serve R call (serveAll R calls c s).2 := by
  simp [serveAll, List.foldl_append]

theorem mirrors_serveAll (R : Radio σ) (mode : ScanMode) (service : Uuid) (s : σ)
    (calls : List ScanCall) :
    Mirrors calls (serveAll R.recorded calls { mode, service } { state := s }).1
      (serveAll R.recorded calls { mode, service } { state := s }).2 := by
  induction calls using List.reverseRecOn with
  | nil =>
    refine ⟨iff_of_false Bool.false_ne_true Log.not_scans_nil, Log.switchedInTurn_nil, id, ?_⟩
    exact iff_of_false Bool.false_ne_true not_wanted_nil
  | append_singleton calls call ih =>
    rw [serveAll_concat]
    exact ih.serve R call

/-- The scan mirrors the radio, whatever it was told and however the radio answered, and telling it the
same thing twice is telling it once. -/
theorem mirrors_radio (R : Radio σ) (mode : ScanMode) (service : Uuid) (s : σ) (calls : List ScanCall) :
    let (c, r) := serveAll R.recorded calls { mode, service } { state := s }
    Mirrors calls c r ∧
      ∀ call, let (c', r') := c.serve R.recorded call r
        (call = .start ∨ call = .resume →
          (R.ask (.startScan c.mode c.service) r'.state).1 =
            (R.ask (.startScan c.mode c.service) r.state).1) →
        (c'.serve R.recorded call r').1 = c' :=
  ⟨mirrors_serveAll R mode service s calls, fun call same => serve_again R.recorded _ _ call same⟩

/-- A scan that was paused and resumed is on, and resuming it again leaves it as it is. -/
theorem mirrors_radio_resumed :
    let calls := [.start, .pause, .resume]
    let scan : Scanner := { mode := .unfiltered, service := Uuid.expand 0x1234 }
    let (c, r) := serveAll SimulatedRadio.radio.recorded calls scan { state := {} }
    let (c', r') := c.serve SimulatedRadio.radio.recorded .resume r
    c.active = true ∧ Mirrors calls c r ∧ (c'.serve SimulatedRadio.radio.recorded .resume r').1 = c' := by
  intro calls scan
  obtain ⟨mirrors, again⟩ := mirrors_radio SimulatedRadio.radio scan.mode scan.service {} calls
  exact ⟨by decide, mirrors, again .resume fun _ => by decide⟩

end Scanner

end RadioCentral
