import RadioCentral.Proofs.ScanCourse
import RadioCentral.Proofs.Shutdown

/-!
What the command that sends leaves behind. It launches a program that waits for a peer, writes to it and
waits for the answer; however it ends, it shuts the program down before, and then no peer is left, no scan
goes on and every handle has been given back. There is one exception: a program that gives up waiting for
the peer ends at once, and its scan stays.
-/
namespace RadioCentral

theorem World.AtRest.still_empty {σ : Type} {w : World (Recorded σ)} (rest : w.AtRest) (R : Radio σ)
    {x : Happening σ} (unstarted : x ≠ .operation .start) (none : w.central.registry.isEmpty = true) :
    (w.happen R x).central.registry.isEmpty = true := by
  have rests := World.Rests.path (World.path_changes R w x) (rest.changes R unstarted).1
  rw [Registry.isEmpty_iff] at none ⊢
  intro a
  rw [Bool.eq_false_iff]
  intro known
  exact Bool.false_ne_true ((none a).symm.trans (rests.known a known))

/-- The program as it is after something else than its driver and its foreground did something: the radio
and the clock have gone on, and attempts may have been lost or taken out of the queue. -/
structure Station.Around (s t : Station) : Prop where
  activity : t.activity = s.activity
  settings : t.settings = s.settings
  central : ∃ dispatch, t.world.central = { s.world.central with dispatch }
  forward : s.radio.nextHandle ≤ t.radio.nextHandle
  clock : s.now ≤ t.now
  driver : t.driven.running = true → s.driven.running = true

inductive Episode where
  | handles (event : RadioEvent)
  | initiates (address : Address)
  | looks
  | around (change : Station → Station)

def Episode.Forward : Episode → Prop
  | around change => ∀ s, Station.Around s (change s)
  | handles _ | initiates _ | looks => True

def neverReady (a : Address) : Conclusion := .failed (.timedOut (a.text ++ " never became ready"))

/-- A command that waits in vain for an answer says so in other words. -/
theorem unconfirmed_ne_neverReady (a : Address) :
    Conclusion.failed (.timedOut ("no write confirmation from " ++ a.text)) ≠ neverReady a := by
  intro same
  simp only [neverReady, Conclusion.failed.injEq, CommandError.timedOut.injEq] at same
  have lengths := congrArg String.length same
  have first : "no write confirmation from ".length = 27 := by decide
  have second : " never became ready".length = 19 := by decide
  rw [String.length_append, String.length_append, first, second] at lengths
  omega

namespace Logged

def setOut (errand : Errand) (p : Logged) : Logged where
  station := p.station.setOut errand
  log :=
    match errand with
    | .watch _ | .send .. => ((p.beat (.radioChanges fun b => { b with inboxOpen := true })).operate .start).log
    | .serve => p.log

def onProgress (errand : Errand) (progress : Opening.Progress) (p : Logged) : Logged where
  station := p.station.onProgress errand progress
  log :=
    match progress with
    | .opened => (p.setOut errand).log
    | .failed .. | .waiting _ => p.log

def launch (errand : Errand) (p : Logged) : Logged :=
  p.onProgress errand (Opening.start p.station.radio.hardware .manager)

def answered (p : Logged) : Logged := p.beat (.radioChanges fun b => { b with openerAnswer := none })

def lookFor {α : Type} (tells : Report → Option α) (p : Logged) : Logged :=
  { p with station := (p.station.lookFor tells).2 }

def writeTo (a : Address) (characteristic : Uuid) (data : Bytes) (p : Logged) : Logged where
  station := p.station.writeTo a characteristic data
  log :=
    match (p.station.world.write Backend.radio data characteristic a).1 with
    | .ok true => (p.operate (.write data characteristic a)).log
    | .ok false | .error _ => ((p.operate (.write data characteristic a)).operate (.stop p.station.order)).log

def look (p : Logged) : Logged where
  station := p.station.advance
  log :=
    match p.station.activity with
    | .opening stage errand =>
      match p.station.radio.openerAnswer with
      | some none => (p.answered.onProgress errand (Opening.proceed p.station.radio.hardware stage)).log
      | some (some _) | none => p.log
    | .watching deadline =>
      if p.station.interrupted || deadline.any p.station.isLate then
        (p.read.operate (.stop p.station.order)).log
      else p.log
    | .awaiting a _ (some (characteristic, data)) =>
      match (p.station.lookFor (Station.readyReport? a)).1 with
      | some _ => ((p.lookFor (Station.readyReport? a)).writeTo a characteristic data).log
      | none => p.log
    | .confirming a _ deadline =>
      if (p.station.lookFor (Station.sentReport? a)).1.isSome || p.station.isLate deadline then
        ((p.lookFor (Station.sentReport? a)).operate (.stop p.station.order)).log
      else p.log
    | .draining .. => (p.beat .looks).log
    | .awaiting _ _ none | .idle | .done _ => p.log

def undergo (p : Logged) : Episode → Logged
  | .handles event => if p.station.driven.running then p.operate (.radioEvent event) else p
  | .initiates a => if p.station.driven.running then p.operate (.initiate a) else p
  | .looks => p.look
  | .around change => { p with station := change p.station }

def course (episodes : List Episode) (p : Logged) : Logged := episodes.foldl undergo p

/-- Nothing is left of a command: nobody is known, the scan has been stopped, and each handle given out
has been given back, once. -/
structure LeavesNothing (p : Logged) : Prop where
  unwanted : p.world.central.scanner.requested = false
  off : p.world.central.scanner.active = false
  silent : ¬ p.log.Scans
  deserted : p.world.central.registry = {}
  returned : p.log.issued.Perm p.log.released
  once : p.log.released.Nodup

/-- How far the command that sends to a peer has come. -/
inductive Stage (r : Address) (p : Logged) : Prop where
  | opening {stage : Opening} {c : Uuid} {data : Bytes}
      (now : p.station.activity = .opening stage (.send r c data)) (calm : p.Calm)
      (idle : p.world.central.isIdle = true) : Stage r p
  | awaiting {deadline : Nat} {c : Uuid} {data : Bytes}
      (now : p.station.activity = .awaiting r deadline (some (c, data)))
      (wanted : p.world.central.scanner.requested = true) : Stage r p
  | confirming {size deadline : Nat} (now : p.station.activity = .confirming r size deadline) : Stage r p
  | closing {deadline : Nat} {line : Option String} {c : Conclusion} (closing : p.Closing deadline line c)
      (other : c ≠ neverReady r) : Stage r p
  | unopened {c : Conclusion} (now : p.station.activity = .done c) (calm : p.Calm)
      (idle : p.world.central.isIdle = true) (other : c ≠ neverReady r) : Stage r p
  | gaveUp (now : p.station.activity = .done (neverReady r))
      (wanted : p.world.central.scanner.requested = true) : Stage r p

structure Sound (p : Logged) : Prop where
  accounted : p.world.Accounted Backend.nextHandle
  told : p.world.ScanTold

structure Sending (r : Address) (p : Logged) : Prop extends p.Sound where
  stage : Stage r p

section

variable {p : Logged} {s : Station}

theorem kept_around (around : p.station.Around s) :
    (Logged.mk s p.log).world.central.registry = p.world.central.registry ∧
      (Logged.mk s p.log).world.central.scanner = p.world.central.scanner ∧
      (Logged.mk s p.log).world.central.reports = p.world.central.reports := by
  obtain ⟨dispatch, central⟩ := around.central
  have same : (Logged.mk s p.log).world.central = { p.world.central with dispatch } := central
  rw [same]
  exact ⟨rfl, rfl, rfl⟩

theorem idle_around (around : p.station.Around s) (idle : p.world.central.isIdle = true) :
    (Logged.mk s p.log).world.central.isIdle = true := by
  rw [Central.isIdle, (kept_around around).1]
  exact idle

theorem Calm.around (calm : p.Calm) (around : p.station.Around s) : (Logged.mk s p.log).Calm :=
  calm.congr (kept_around around).1 (kept_around around).2.1 rfl around.forward

theorem Closing.around {deadline : Nat} {line : Option String} {c : Conclusion}
    (closing : p.Closing deadline line c) (around : p.station.Around s) :
    (Logged.mk s p.log).Closing deadline line c := by
  obtain ⟨registry, -, reports⟩ := kept_around around
  refine ⟨closing.toCalm.around around, ?_⟩
  rcases closing.stage with ⟨draining, heard⟩ | ⟨done, ended, none⟩
  · refine Or.inl ⟨around.activity.trans draining, fun idle => ?_⟩
    rw [Central.isIdle, registry] at idle
    rw [reports]
    exact heard idle
  · refine Or.inr ⟨around.activity.trans done, Bool.eq_false_iff.2 fun running => ?_, idle_around around none⟩
    exact Bool.false_ne_true (ended.symm.trans (around.driver running))

end

namespace Sound

variable {p q : Logged}

theorem congr (sound : p.Sound) (registry : q.world.central.registry = p.world.central.registry)
    (scanner : q.world.central.scanner = p.world.central.scanner) (log : q.log = p.log)
    (forward : p.station.radio.nextHandle ≤ q.station.radio.nextHandle) : q.Sound where
  accounted := sound.accounted.congr registry log forward
  told := sound.told.congr scanner log

theorem operate (sound : p.Sound) {o : Operation} (kept : ∀ order, o ≠ .reset order) :
    (p.operate o).Sound := by
  constructor
  · rw [world_operate]
    exact sound.accounted.happen Backend.numbers fun change same => by cases same
  · rw [world_operate]
    exact sound.told.happen Backend.radio fun ⟨order, same⟩ => kept order (Happening.operation.inj same)

/-- A scan that is off can be forgotten. -/
theorem reset (sound : p.Sound) (order : Registry.Order) (off : p.world.central.scanner.active = false) :
    (p.operate (.reset order)).Sound := by
  constructor
  · rw [world_operate]
    exact sound.accounted.happen Backend.numbers fun change same => by cases same
  · rw [world_operate]
    exact sound.told.reset Backend.radio order off

theorem finish (sound : p.Sound) (line : Option String) (c : Conclusion) : (p.finish line c).Sound := by
  have central := central_finish p line c
  refine sound.congr ?_ ?_ rfl (Nat.le_of_eq (nextHandle_finish p line c).symm)
  · rw [central]
  · rw [central]

theorem lookFor {α : Type} (sound : p.Sound) (tells : Report → Option α) : (p.lookFor tells).Sound :=
  sound.congr rfl rfl rfl (Nat.le_refl _)

/-- Shutting down is a way to come to an end. -/
theorem shutDown (sound : p.Sound) (line : Option String) {r : Address} {c : Conclusion}
    (other : c ≠ neverReady r) : Sending r (p.shutDown line c) := by
  have stopped : (p.operate (.stop p.station.order)).Sound := sound.operate (by simp)
  refine ⟨?_, .closing (closing_shutDown sound.accounted line c) other⟩
  simp only [shutDown_eq]
  split
  · exact stopped.finish line c
  · exact stopped.congr rfl rfl rfl (Nat.le_refl _)

theorem setOut (sound : p.Sound) (r : Address) (c : Uuid) (data : Bytes) :
    Sending r (p.setOut (.send r c data)) := by
  let q := (p.beat (.radioChanges fun b => { b with inboxOpen := true })).operate .start
  have begun : q.Sound :=
    Sound.operate (p := p.beat (.radioChanges fun b => { b with inboxOpen := true }))
      (sound.congr rfl rfl rfl (Nat.le_refl _)) (by simp)
  refine ⟨begun.congr rfl rfl rfl (Nat.le_refl _), .awaiting rfl ?_⟩
  show q.world.central.scanner.requested = true
  rw [world_operate]
  exact Scanner.requested_serve Backend.radio.recorded _ _ .start

theorem onProgress (sound : p.Sound) (calm : p.Calm) (idle : p.world.central.isIdle = true) (r : Address)
    (c : Uuid) (data : Bytes) (progress : Opening.Progress) :
    Sending r (p.onProgress (.send r c data) progress) := by
  cases progress with
  | opened => exact sound.setOut r c data
  | waiting stage =>
    refine ⟨sound.congr rfl rfl rfl (Nat.le_refl _), .opening rfl ?_ idle⟩
    exact calm.congr rfl rfl rfl (Nat.le_refl _)
  | failed stage e =>
    refine ⟨sound.congr rfl rfl rfl (Nat.le_refl _), .unopened rfl ?_ idle ?_⟩
    · exact calm.congr rfl rfl rfl (Nat.le_refl _)
    · cases stage <;> simp [Station.openingError, neverReady]

/-- What a write comes to. -/
theorem writeTo (sound : p.Sound) (r : Address) (c : Uuid) (data : Bytes) :
    Sending r (p.writeTo r c data) := by
  have written : (p.operate (.write data c r)).Sound := sound.operate (by simp)
  cases result : (p.station.world.write Backend.radio data c r).1 with
  | error e =>
    have same : p.writeTo r c data = (p.operate (.write data c r)).shutDown none (.failed (.central e)) := by
      simp only [Logged.writeTo, Station.writeTo, result]
      rfl
    rw [same]
    exact written.shutDown none (by simp [neverReady])
  | ok issued =>
    cases issued with
    | false =>
      have same : p.writeTo r c data = (p.operate (.write data c r)).shutDown none (.failed (.writeRejected
          (r.text ++ " is not ready or has no characteristic " ++ c.text))) := by
        simp only [Logged.writeTo, Station.writeTo, result]
        rfl
      rw [same]
      exact written.shutDown none (by simp [neverReady])
    | true =>
      let deadline := momentAfter p.station.now p.station.settings.runtime.writeTimeout
      let q := p.operate (.write data c r)
      have same : p.writeTo r c data =
          { q with station := { q.station with activity := .confirming r data.length deadline } } := by
        simp only [Logged.writeTo, Station.writeTo, result]
        rfl
      rw [same]
      exact ⟨written.congr rfl rfl rfl (Nat.le_refl _), .confirming rfl⟩

end Sound

namespace Sending

variable {r : Address} {p : Logged}

/-- What the driver does brings the command no further. -/
theorem operate (sending : Sending r p) {o : Operation}
    (driver : (∃ event, o = .radioEvent event) ∨ ∃ a, o = .initiate a)
    (running : p.station.driven.running = true) : Sending r (p.operate o) := by
  have other : o ≠ .start ∧ (∀ order, o ≠ .stop order) ∧ ∀ order, o ≠ .reset order := by
    rcases driver with ⟨event, rfl⟩ | ⟨a, rfl⟩ <;> simp
  have unstarted : Happening.operation (σ := Backend) o ≠ .operation .start := fun same =>
    other.1 (Happening.operation.inj same)
  have unstopped : ¬ (Happening.operation (σ := Backend) o).Stops := fun ⟨order, same⟩ =>
    other.2.1 order (Happening.operation.inj same)
  have kept : ¬ (Happening.operation (σ := Backend) o).Resets := fun ⟨order, same⟩ =>
    other.2.2 order (Happening.operation.inj same)
  have wants : (p.operate o).world.central.scanner.requested = p.world.central.scanner.requested := by
    rw [world_operate]
    exact World.requested_happen Backend.radio p.world ⟨unstarted, unstopped, kept⟩
  have deserted (calm : p.Calm) (idle : p.world.central.isIdle = true) :
      (p.operate o).world.central.isIdle = true := by
    rw [world_operate]
    exact calm.rest.still_empty Backend.radio unstarted idle
  refine ⟨sending.toSound.operate other.2.2, ?_⟩
  cases sending.stage with
  | opening now calm idle => exact .opening now (calm.operate other.1) (deserted calm idle)
  | awaiting now wanted => exact .awaiting now (wants.trans wanted)
  | confirming now => exact .confirming now
  | closing closing unlike => exact .closing (closing.operate other.1 other.2.2 running) unlike
  | unopened now calm idle unlike => exact .unopened now (calm.operate other.1) (deserted calm idle) unlike
  | gaveUp now wanted => exact .gaveUp now (wants.trans wanted)

theorem around (sending : Sending r p) {s : Station} (around : p.station.Around s) :
    Sending r { p with station := s } := by
  obtain ⟨registry, scanner, -⟩ := kept_around around
  have same := around.activity
  refine ⟨sending.toSound.congr registry scanner rfl around.forward, ?_⟩
  cases sending.stage with
  | opening now calm idle => exact .opening (same.trans now) (calm.around around) (idle_around around idle)
  | awaiting now wanted => exact .awaiting (same.trans now) (by rw [scanner, wanted])
  | confirming now => exact .confirming (same.trans now)
  | closing closing other => exact .closing (closing.around around) other
  | unopened now calm idle other =>
    exact .unopened (same.trans now) (calm.around around) (idle_around around idle) other
  | gaveUp now wanted => exact .gaveUp (same.trans now) (by rw [scanner, wanted])

theorem look_opening {stage : Opening} {c : Uuid} {data : Bytes} (sound : p.Sound) (calm : p.Calm)
    (idle : p.world.central.isIdle = true) (now : p.station.activity = .opening stage (.send r c data)) :
    Sending r p.look := by
  have answered : p.answered.Sound := sound.congr rfl rfl rfl (Nat.le_refl _)
  have still : p.answered.Calm := calm.congr rfl rfl rfl (Nat.le_refl _)
  cases answer : p.station.radio.openerAnswer with
  | none =>
    have same : p.look = p := by
      simp only [Logged.look, Station.advance, now, Station.pollOpening, answer]
    rw [same]
    exact ⟨sound, .opening now calm idle⟩
  | some failure? =>
    cases failure? with
    | none =>
      have same : p.look =
          p.answered.onProgress (.send r c data) (Opening.proceed p.station.radio.hardware stage) := by
        simp only [Logged.look, Station.advance, now, Station.pollOpening, answer]
        rfl
      rw [same]
      exact answered.onProgress still idle r c data _
    | some failure =>
      have same : p.look =
          p.answered.onProgress (.send r c data) (.failed stage (.backend failure.message)) := by
        simp only [Logged.look, Station.advance, now, Station.pollOpening, answer]
        rfl
      rw [same]
      exact answered.onProgress still idle r c data _

theorem look_awaiting {deadline : Nat} {c : Uuid} {data : Bytes} (sound : p.Sound)
    (wanted : p.world.central.scanner.requested = true)
    (now : p.station.activity = .awaiting r deadline (some (c, data))) : Sending r p.look := by
  have left : (p.lookFor (Station.readyReport? r)).Sound := sound.lookFor _
  cases found : (p.station.lookFor (Station.readyReport? r)).1 with
  | some size =>
    have same : p.look = (p.lookFor (Station.readyReport? r)).writeTo r c data := by
      simp only [Logged.look, Station.advance, now, Station.pollAwaiting, found]
      rfl
    rw [same]
    exact left.writeTo r c data
  | none =>
    by_cases late : p.station.isLate deadline = true
    · have same : p.look = { p.lookFor (Station.readyReport? r) with station :=
          { (p.lookFor (Station.readyReport? r)).station with activity := .done (neverReady r) } } := by
        have due : (p.station.lookFor (Station.readyReport? r)).2.isLate deadline = true := late
        simp only [Logged.look, Station.advance, now, Station.pollAwaiting, found, due]
        rfl
      rw [same]
      exact ⟨left.congr rfl rfl rfl (Nat.le_refl _), .gaveUp rfl wanted⟩
    · have same : p.look = p.lookFor (Station.readyReport? r) := by
        have early : (p.station.lookFor (Station.readyReport? r)).2.isLate deadline = false :=
          Bool.eq_false_iff.2 late
        simp only [Logged.look, Station.advance, now, Station.pollAwaiting, found, early]
        rfl
      rw [same]
      exact ⟨left, .awaiting now wanted⟩

theorem look_confirming {size deadline : Nat} (sound : p.Sound)
    (now : p.station.activity = .confirming r size deadline) : Sending r p.look := by
  have left : (p.lookFor (Station.sentReport? r)).Sound := sound.lookFor _
  have late : (p.station.lookFor (Station.sentReport? r)).2.isLate deadline = p.station.isLate deadline := rfl
  cases found : (p.station.lookFor (Station.sentReport? r)).1 with
  | some error =>
    cases error with
    | none =>
      have same : p.look = (p.lookFor (Station.sentReport? r)).shutDown
          (some ("Sent " ++ toString size ++ " bytes to " ++ r.text)) .finished := by
        simp only [Logged.look, Station.advance, now, Station.pollConfirming, found]
        rfl
      rw [same]
      exact left.shutDown _ (by simp [neverReady])
    | some e =>
      have same : p.look =
          (p.lookFor (Station.sentReport? r)).shutDown none (.failed (.writeRejected e.message)) := by
        simp only [Logged.look, Station.advance, now, Station.pollConfirming, found]
        rfl
      rw [same]
      exact left.shutDown _ (by simp [neverReady])
  | none =>
    cases due : p.station.isLate deadline with
    | true =>
      have same : p.look = (p.lookFor (Station.sentReport? r)).shutDown none
          (.failed (.timedOut ("no write confirmation from " ++ r.text))) := by
        simp only [Logged.look, Station.advance, now, Station.pollConfirming, found, late, due]
        rfl
      rw [same]
      exact left.shutDown _ (unconfirmed_ne_neverReady r)
    | false =>
      have same : p.look = p.lookFor (Station.sentReport? r) := by
        simp only [Logged.look, Station.advance, now, Station.pollConfirming, found, late, due]
        rfl
      rw [same]
      exact ⟨left, .confirming now⟩

theorem look_closing {deadline : Nat} {line : Option String} {c : Conclusion} (sound : p.Sound)
    (closing : p.Closing deadline line c) (other : c ≠ neverReady r) : Sending r p.look := by
  rcases closing.stage with ⟨draining, -⟩ | ⟨done, -, -⟩
  · have same : p.look = p.beat .looks := by
      simp only [Logged.look, draining]
      rfl
    rw [same]
    refine ⟨?_, .closing (closing.beat (b := .looks) trivial) other⟩
    have read : p.read.Sound := sound.congr rfl rfl rfl (Nat.le_refl _)
    have looked := looked_looks draining
    generalize p.beat .looks = q at looked ⊢
    cases looked with
    | drained => exact read.finish line c
    | forced => exact (read.reset p.station.order closing.rest.off).finish line c
    | waits => exact read
  · have same : p.look = p := by simp only [Logged.look, Station.advance, done]
    rw [same]
    exact ⟨sound, .closing closing other⟩

/-- What a look asks for. -/
theorem look (sending : Sending r p) : Sending r p.look := by
  have sound := sending.toSound
  cases sending.stage with
  | opening now calm idle => exact look_opening sound calm idle now
  | awaiting now wanted => exact look_awaiting sound wanted now
  | confirming now => exact look_confirming sound now
  | closing closing other => exact look_closing sound closing other
  | unopened done calm idle other =>
    have same : p.look = p := by simp only [Logged.look, Station.advance, done]
    rw [same]
    exact ⟨sound, .unopened done calm idle other⟩
  | gaveUp done wanted =>
    have same : p.look = p := by simp only [Logged.look, Station.advance, done]
    rw [same]
    exact ⟨sound, .gaveUp done wanted⟩

/-- Whatever is done, the command goes its way. -/
theorem undergo (sending : Sending r p) {d : Episode} (forward : d.Forward) : Sending r (p.undergo d) := by
  cases d with
  | handles event =>
    simp only [Logged.undergo]
    split
    case isTrue running => exact sending.operate (Or.inl ⟨event, rfl⟩) running
    case isFalse => exact sending
  | initiates a =>
    simp only [Logged.undergo]
    split
    case isTrue running => exact sending.operate (Or.inr ⟨a, rfl⟩) running
    case isFalse => exact sending
  | looks => exact sending.look
  | around change => exact sending.around (forward p.station)

end Sending

end Logged

end RadioCentral
