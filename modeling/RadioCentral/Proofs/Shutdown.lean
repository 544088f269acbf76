import RadioCentral.Proofs.Run.Projection
import RadioCentral.Proofs.Shutdown.Emptying
import RadioCentral.Station.Clock

/-!
Shutting a program down leaks nothing. The peers are sent away and the program waits for them; its driver
goes on meanwhile, and may end. Whether the last peer goes in time or the central is reset when the time
is up, in the end no peer is left and every handle the radio gave out has been given back once.
-/
namespace RadioCentral

variable {σ : Type}

namespace World

/-- The worlds that a central on a radio gets into, with the record of its radio: from the beginning by
what happens to it, unless it takes the numbers of handles back, and by reports that are taken away. -/
inductive Reached (R : Radio σ) (next : σ → Nat) (settings : Settings) (s : σ) : World (Recorded σ) → Prop where
  | fresh : Reached R next settings s (World.fresh settings s)
  | happened {w : World (Recorded σ)} {x : Happening σ} (reached : Reached R next settings s w)
      (forward : ∀ change, x = .radioChanges change → ∀ s, next s ≤ next (change s)) :
      Reached R next settings s (w.happen R x)
  | read {w : World (Recorded σ)} (count : Nat) (reached : Reached R next settings s w) :
      Reached R next settings s
        { w with central := { w.central with reports := w.central.reports.drop count } }

structure Accounted (next : σ → Nat) (w : World (Recorded σ)) : Prop where
  orderly : w.central.registry.Orderly
  conserved : Conserved w.central.registry w.radio.log []
  numbered : Numbered next w.radio

namespace Accounted

variable {next : σ → Nat} {w v : World (Recorded σ)} {R : Radio σ} {x : Happening σ}

theorem congr (accounted : w.Accounted next) (registry : v.central.registry = w.central.registry)
    (log : v.radio.log = w.radio.log) (forward : next w.radio.state ≤ next v.radio.state) :
    v.Accounted next where
  orderly := registry ▸ accounted.orderly
  conserved := registry ▸ log ▸ accounted.conserved
  numbered := accounted.numbered.later (by rw [log]) forward

theorem happen (accounted : w.Accounted next) (numbers : R.Numbers next)
    (forward : ∀ change, x = .radioChanges change → ∀ s, next s ≤ next (change s)) :
    (w.happen R x).Accounted next where
  orderly := happen_keeps R w (fun _ _ _ _ _ turn now => orderly_turn turn now) accounted.orderly
  conserved := happen_keeps R w (P := fun v => Conserved v.central.registry v.radio.log [])
    (fun _ _ _ _ _ turn now => conserved_turn turn now) accounted.conserved
  numbered := by
    cases x with
    | operation o =>
      exact numbers.recorded.step o (accounted.numbered.later (issued_hear o.event? w) (Nat.le_refl _))
    | radioChanges change => exact accounted.numbered.later rfl (forward change rfl _)

/-- Without peers every handle that was given out has been given back, once. -/
theorem released (accounted : w.Accounted next) (none : w.central.registry = {}) :
    w.radio.log.issued.Perm w.radio.log.released ∧ w.radio.log.released.Nodup := by
  have balance := accounted.conserved.balance
  rw [none] at balance
  have distinct : w.radio.log.issued.Nodup :=
    accounted.numbered.ascending.imp fun less same => absurd less (by simp [same])
  exact ⟨balance, balance.nodup_iff.1 distinct⟩

end Accounted

theorem Reached.accounted {R : Radio σ} {next : σ → Nat} {settings : Settings} {s : σ}
    {w : World (Recorded σ)} (reached : Reached R next settings s w) (numbers : R.Numbers next) :
    w.Accounted next := by
  induction reached with
  | fresh =>
    exact ⟨Registry.orderly_empty, conserved_empty, List.Pairwise.nil, fun _ mem => absurd mem List.not_mem_nil⟩
  | happened _ forward ih => exact ih.happen numbers forward
  | read _ _ ih => exact ih.congr rfl rfl (Nat.le_refl _)

theorem reached_outcome {R : Radio σ} {next : σ → Nat} (settings : Settings) (s : σ)
    (history : List (Happening σ))
    (forward : ∀ change, .radioChanges change ∈ history → ∀ s, next s ≤ next (change s)) :
    Reached R next settings s (outcome R settings s history) := by
  induction history using List.reverseRecOn with
  | nil => exact .fresh
  | append_singleton history x ih =>
    rw [outcome_concat]
    refine .happened (ih fun change mem => forward change (List.mem_append_left _ mem)) ?_
    rintro change rfl
    exact forward change (by simp)

end World

inductive Beat where
  | handles (event : RadioEvent)
  | dispatches
  /-- The driver ends, as it does with the stream of events. -/
  | driverEnds
  | radioChanges (change : Backend → Backend)
  | timePasses (duration : Nat)
  | looks

def Beat.Forward : Beat → Prop
  | radioChanges change => ∀ b, b.nextHandle ≤ (change b).nextHandle
  | handles _ | dispatches | driverEnds | timePasses _ | looks => True

/-- A program with the record of what its central asked the radio for. -/
structure Logged where
  station : Station
  log : Log

namespace Logged

def world (p : Logged) : World (Recorded Backend) := ⟨p.station.world.central, p.station.radio, p.log⟩

def operate (o : Operation) (p : Logged) : Logged where
  station := p.station.onWorld fun w => w.step Backend.radio o
  log := (p.world.happen Backend.radio (.operation o)).radio.log

/-- A look at the reports and at the clock ends the waiting by a reset. -/
def forced (p : Logged) : Bool :=
  match p.station.activity with
  | .draining deadline _ _ =>
    p.station.isLate deadline && !(!p.station.world.central.reports.isEmpty && p.station.world.central.isIdle)
  | _ => false

def read (p : Logged) : Logged := { p with station := p.station.takeReports.2 }

def finish (line : Option String) (c : Conclusion) (p : Logged) : Logged :=
  { p with station := p.station.finishShutdown line c }

def beat (p : Logged) : Beat → Logged
  | .handles event => if p.station.driven.running then p.operate (.radioEvent event) else p
  | .dispatches => if p.station.driven.running then p.operate .dispatchNext else p
  | .driverEnds => { p with station :=
      { p.station.onWorld World.dropDispatch with
        driven := { (p.station.onWorld World.dropDispatch).driven with running := false } } }
  | .radioChanges change => { p with station := p.station.onRadio change }
  | .timePasses duration => { p with station := { p.station with now := p.station.now + duration } }
  | .looks => {
    station := p.station.advance
    log := if p.forced then (p.read.operate (.reset p.station.order)).log else p.log }

def play (beats : List Beat) (p : Logged) : Logged := beats.foldl beat p

def shutDown (line : Option String) (c : Conclusion) (p : Logged) : Logged where
  station := p.station.shutDown line c
  log := (p.operate (.stop p.station.order)).log

section

variable (p : Logged) (o : Operation) (line : Option String) (c : Conclusion)

theorem world_operate : (p.operate o).world = p.world.happen Backend.radio (.operation o) := by
  have same := World.forget_step Backend.radio (p.world.hear o.event?) o
  have forgotten : (p.world.hear o.event?).forget = p.station.world := rfl
  rw [forgotten] at same
  show ({ central := (p.station.world.step Backend.radio o).central,
          radio := { state := (p.station.world.step Backend.radio o).radio, log := _ } } :
    World (Recorded Backend)) = _
  rw [← same]
  rfl

theorem station_finish : ∃ printed, (p.finish line c).station =
    { p.station.stopDriver with printed, activity := .done c } := by
  cases line with
  | none => exact ⟨_, rfl⟩
  | some line => exact ⟨_, rfl⟩

theorem done_finish : (p.finish line c).station.activity = .done c ∧
    (p.finish line c).station.driven.running = false := by
  obtain ⟨printed, same⟩ := station_finish p line c
  rw [same]
  exact ⟨rfl, rfl⟩

theorem central_finish : (p.finish line c).world.central =
    { p.world.central with dispatch := p.world.central.dispatch.drop } := by
  obtain ⟨printed, same⟩ := station_finish p line c
  simp only [world, same]
  rfl

theorem nextHandle_finish : (p.finish line c).station.radio.nextHandle = p.station.radio.nextHandle := by
  obtain ⟨printed, same⟩ := station_finish p line c
  rw [same]
  rfl

theorem shutDown_eq : p.shutDown line c =
    let q := p.operate (.stop p.station.order)
    if q.world.central.isIdle then q.finish line c
    else { q with station :=
      { q.station with activity := .draining (p.station.now + shutdownGrace) line c } } :=
  apply_ite (Logged.mk · (p.operate (.stop p.station.order)).log) _ _ _

inductive Looked (p : Logged) (deadline : Nat) (line : Option String) (c : Conclusion) : Logged → Prop where
  | drained (some : p.world.central.reports ≠ []) (idle : p.world.central.isIdle = true) :
      Looked p deadline line c (p.read.finish line c)
  | forced (late : deadline ≤ p.station.now)
      (unseen : p.world.central.isIdle = true → p.world.central.reports = []) :
      Looked p deadline line c ((p.read.operate (.reset p.station.order)).finish line c)
  | waits (early : p.station.now < deadline)
      (unseen : p.world.central.isIdle = true → p.world.central.reports = []) : Looked p deadline line c p.read

theorem looked_looks {p : Logged} {deadline : Nat} {line : Option String} {c : Conclusion}
    (draining : p.station.activity = .draining deadline line c) :
    Looked p deadline line c (p.beat .looks) := by
  have look : p.station.advance = p.station.pollDraining deadline line c := by
    rw [Station.advance, draining]
  have forced : p.forced = (p.station.isLate deadline &&
      !(!p.world.central.reports.isEmpty && p.world.central.isIdle)) := by
    rw [Logged.forced, draining]
    rfl
  have taken : p.station.takeReports = (p.world.central.reports, p.read.station) := rfl
  have idle : p.read.station.world.central.isIdle = p.world.central.isIdle := rfl
  have late : p.read.station.isLate deadline = p.station.isLate deadline := rfl
  simp only [beat, look, forced, Station.pollDraining, taken, idle, late]
  cases seen : !p.world.central.reports.isEmpty && p.world.central.isIdle with
  | true =>
    simp only [Bool.not_true, Bool.and_false, Bool.false_eq_true, ↓reduceIte]
    rw [Bool.and_eq_true] at seen
    exact .drained (by simpa using seen.1) seen.2
  | false =>
    have unseen : p.world.central.isIdle = true → p.world.central.reports = [] := by
      intro idle
      simpa [idle] using seen
    cases due : p.station.isLate deadline with
    | true =>
      simp only [Bool.not_false, Bool.and_true, Bool.false_eq_true, ↓reduceIte]
      exact .forced (of_decide_eq_true due) unseen
    | false =>
      simp only [Bool.false_and, Bool.false_eq_true, ↓reduceIte]
      exact .waits (Nat.lt_of_not_le (of_decide_eq_false due)) unseen

end

structure Calm (p : Logged) : Prop where
  accounted : p.world.Accounted Backend.nextHandle
  rest : p.world.AtRest

namespace Calm

variable {p q : Logged}

theorem congr (calm : p.Calm) (registry : q.world.central.registry = p.world.central.registry)
    (scanner : q.world.central.scanner = p.world.central.scanner) (log : q.log = p.log)
    (forward : p.station.radio.nextHandle ≤ q.station.radio.nextHandle) : q.Calm where
  accounted := calm.accounted.congr registry log forward
  rest := ⟨by rw [scanner]; exact calm.rest.unwanted, by rw [scanner]; exact calm.rest.off,
    by rw [registry]; exact calm.rest.leaving⟩

theorem read (calm : p.Calm) : p.read.Calm := calm.congr rfl rfl rfl (Nat.le_refl _)

theorem operate (calm : p.Calm) {o : Operation} (unstarted : o ≠ .start) : (p.operate o).Calm := by
  constructor
  · rw [world_operate]
    exact calm.accounted.happen Backend.numbers fun change other => by cases other
  · rw [world_operate]
    exact (calm.rest.changes Backend.radio fun same => unstarted (Happening.operation.inj same)).2

theorem finish (calm : p.Calm) (line : Option String) (c : Conclusion) : (p.finish line c).Calm := by
  have central := central_finish p line c
  refine calm.congr ?_ ?_ rfl (Nat.le_of_eq (nextHandle_finish p line c).symm)
  · rw [central]
  · rw [central]

end Calm

/-- A program that shuts down. It waits for its peers, and does not miss that the last one goes, or it is
done: then no peer is left, and there is no driver. -/
structure Closing (deadline : Nat) (line : Option String) (c : Conclusion) (p : Logged) : Prop extends
    p.Calm where
  stage : p.station.activity = .draining deadline line c ∧
      (p.world.central.isIdle = true → p.world.central.reports ≠ []) ∨
    p.station.activity = .done c ∧ p.station.driven.running = false ∧ p.world.central.isIdle = true

namespace Closing

variable {p : Logged} {deadline : Nat} {line : Option String} {c : Conclusion}

theorem finish (calm : p.Calm) (idle : p.world.central.isIdle = true) :
    (p.finish line c).Closing deadline line c := by
  obtain ⟨done, ended⟩ := done_finish p line c
  refine ⟨calm.finish line c, Or.inr ⟨done, ended, ?_⟩⟩
  rw [central_finish]
  exact idle

/-- What the driver does keeps the program closing. -/
theorem operate (closing : p.Closing deadline line c) {o : Operation} (unstarted : o ≠ .start)
    (kept : ∀ order, o ≠ .reset order) (running : p.station.driven.running = true) :
    (p.operate o).Closing deadline line c := by
  refine ⟨closing.toCalm.operate unstarted, ?_⟩
  rcases closing.stage with ⟨draining, heard⟩ | ⟨-, ended, -⟩
  · refine Or.inl ⟨draining, fun idle => ?_⟩
    rw [world_operate] at idle ⊢
    exact closing.rest.report_of_empty Backend.radio (fun same => unstarted (Happening.operation.inj same))
      (fun ⟨order, same⟩ => kept order (Happening.operation.inj same)) idle heard
  · rw [running] at ended
    cases ended

theorem beat (closing : p.Closing deadline line c) {b : Beat} (forward : b.Forward) :
    (p.beat b).Closing deadline line c := by
  cases b with
  | handles event =>
    by_cases running : p.station.driven.running = true
    · simp only [Logged.beat, running, ↓reduceIte]
      exact closing.operate (by simp) (by simp) running
    · simp only [Logged.beat, running, Bool.false_eq_true, ↓reduceIte]
      exact closing
  | dispatches =>
    by_cases running : p.station.driven.running = true
    · simp only [Logged.beat, running, ↓reduceIte]
      exact closing.operate (by simp) (by simp) running
    · simp only [Logged.beat, running, Bool.false_eq_true, ↓reduceIte]
      exact closing
  | driverEnds =>
    exact ⟨closing.toCalm.congr rfl rfl rfl (Nat.le_refl _),
      closing.stage.imp id fun ⟨done, _, idle⟩ => ⟨done, rfl, idle⟩⟩
  | radioChanges change => exact ⟨closing.toCalm.congr rfl rfl rfl (forward _), closing.stage⟩
  | timePasses duration => exact ⟨closing.toCalm.congr rfl rfl rfl (Nat.le_refl _), closing.stage⟩
  | looks =>
    rcases closing.stage with ⟨draining, heard⟩ | ⟨done, ended, idle⟩
    · have looked := looked_looks draining
      generalize p.beat .looks = q at looked ⊢
      cases looked with
      | drained _ idle => exact finish closing.read idle
      | forced =>
        have reset : (p.read.operate (.reset p.station.order)).world.central.isIdle = true := by
          rw [world_operate]
          simp [World.happen, Operation.event?, World.hear_none, World.step, World.central_reset, Central.isIdle,
            Registry.isEmpty]
        exact finish (closing.read.operate (by simp)) reset
      | waits _ unseen =>
        exact ⟨closing.read, Or.inl ⟨draining, fun idle => absurd (unseen idle) (heard idle)⟩⟩
    · have same : p.beat .looks = p := by
        simp [Logged.beat, Station.advance, forced, done]
      rw [same]
      exact closing

theorem play (closing : p.Closing deadline line c) {beats : List Beat} (forward : ∀ b ∈ beats, b.Forward) :
    (p.play beats).Closing deadline line c := by
  induction beats generalizing p with
  | nil => exact closing
  | cons b beats ih =>
    obtain ⟨first, rest⟩ := List.forall_mem_cons.1 forward
    exact ih (closing.beat first) rest

end Closing

/-- Shutting down begins by stopping the central. -/
theorem closing_shutDown {p : Logged} (accounted : p.world.Accounted Backend.nextHandle)
    (line : Option String) (c : Conclusion) :
    (p.shutDown line c).Closing (p.station.now + shutdownGrace) line c := by
  have stopped := accounted.happen (x := .operation (.stop p.station.order)) Backend.numbers
    fun change other => by cases other
  have calm : (p.operate (.stop p.station.order)).Calm := by
    constructor
    · rw [world_operate]
      exact stopped
    · rw [world_operate]
      exact World.atRest_stop accounted.orderly stopped.orderly
  simp only [shutDown_eq]
  split
  case isTrue idle => exact Closing.finish calm idle
  case isFalse busy =>
    exact ⟨calm.congr rfl rfl rfl (Nat.le_refl _), Or.inl ⟨rfl, fun idle => absurd idle busy⟩⟩

/-! ### The driver of the program -/

section

variable {p : Logged}

theorem play_append (first rest : List Beat) (p : Logged) : p.play (first ++ rest) = (p.play first).play rest :=
  List.foldl_append

theorem play_handles (events : List RadioEvent) (running : p.station.driven.running = true) :
    (p.play (events.map .handles)).station =
      p.station.onWorld fun w => events.foldl (fun w event => w.onRadioEvent Backend.radio event) w := by
  induction events generalizing p with
  | nil => rfl
  | cons event events ih =>
    have first : p.beat (.handles event) = p.operate (.radioEvent event) := if_pos running
    rw [List.map_cons, play, List.foldl_cons, first]
    exact ih (p := p.operate (.radioEvent event)) running

theorem calm_handles (calm : p.Calm) (events : List RadioEvent) : (p.play (events.map .handles)).Calm := by
  induction events generalizing p with
  | nil => exact calm
  | cons event events ih =>
    refine ih ?_
    by_cases running : p.station.driven.running = true
    · simp only [beat, running, ↓reduceIte]
      exact calm.operate (by simp)
    · simp only [beat, running, Bool.false_eq_true, ↓reduceIte]
      exact calm

theorem onWorld_congr {s : Station} {f g : World Backend → World Backend}
    (same : f s.driven.world = g s.driven.world) : s.onWorld f = s.onWorld g := by
  simp only [Station.onWorld, same]

def withQueue (queue : List Address) (w : World Backend) : World Backend :=
  { w with central := { w.central with dispatch := { w.central.dispatch with queue } } }

theorem dispatchAll_atRest {w : World Backend} (past : ∀ a, w.awaitsConnect a = false) :
    w.dispatchAll Backend.radio = withQueue [] w := by
  have left (queue : List Address) (v : World Backend) (past : ∀ a, v.awaitsConnect a = false) :
      queue.foldl (fun v a => v.initiate Backend.radio a) v = v := by
    induction queue with
    | nil => rfl
    | cons a queue ih => rw [List.foldl_cons, World.initiate, past, if_neg Bool.false_ne_true, ih]
  exact left _ _ past

theorem dispatchNext_atRest {w : World Backend} {a : Address} {queue : List Address}
    (queued : w.central.dispatch.queue = a :: queue) (past : ∀ a, w.awaitsConnect a = false) :
    w.dispatchNext Backend.radio = withQueue queue w := by
  have left : (withQueue queue w).awaitsConnect a = false := past a
  have taken : w.takeAttempt = (some a, withQueue queue w) := by
    unfold World.takeAttempt
    rw [queued]
    rfl
  rw [World.dispatchNext, taken]
  simp only [World.initiate, left, Bool.false_eq_true, ↓reduceIte]

theorem play_dispatches (calm : p.Calm) (running : p.station.driven.running = true) :
    (p.play (p.world.central.dispatch.queue.map fun _ => .dispatches)).station =
      p.station.onWorld (World.dispatchAll Backend.radio) := by
  have emptied : p.station.onWorld (World.dispatchAll Backend.radio) = p.station.onWorld (withQueue []) :=
    onWorld_congr (dispatchAll_atRest (w := p.station.world) calm.rest.not_awaitsConnect)
  rw [emptied]
  generalize queued : p.world.central.dispatch.queue = queue
  clear emptied
  induction queue generalizing p with
  | nil =>
    have same : withQueue [] p.station.driven.world = p.station.driven.world := by
      rw [withQueue, ← queued]
      rfl
    simp only [Station.onWorld, same]
    rfl
  | cons a queue ih =>
    have next : (p.operate .dispatchNext).station = p.station.onWorld (withQueue queue) :=
      onWorld_congr (dispatchNext_atRest (w := p.station.world) queued calm.rest.not_awaitsConnect)
    have first : p.beat .dispatches = p.operate .dispatchNext := if_pos running
    have rest := ih (p := p.operate .dispatchNext) (calm.operate (by simp)) running
      (by rw [Logged.world, next]; rfl)
    rw [List.map_cons, play, List.foldl_cons, first]
    refine rest.trans ?_
    rw [next]
    rfl

/-- When the driver attends to the events of the radio, it handles them one by one, takes up the attempts
and ends if the stream has. -/
theorem attend_played (calm : p.Calm) : ∃ beats : List Beat, (∀ b ∈ beats, b.Forward) ∧
    (p.play beats).station = { p.station.attend with
      driven := { p.station.attend.driven with inbox := p.station.driven.inbox } } := by
  let take : Beat := .radioChanges fun b => b.takeEvents.2
  have forward : take.Forward := fun _ => Nat.le_refl _
  cases running : p.station.driven.running with
  | false =>
    refine ⟨[take], by simpa using forward, ?_⟩
    unfold Station.attend Driven.settle
    simp only
    rw [if_neg (by simp [running])]
    rfl
  | true =>
    let events := p.station.driven.inbox ++ p.station.radio.events
    let heard := (p.beat take).play (events.map .handles)
    have hears : heard.station = (p.beat take).station.onWorld fun w =>
        events.foldl (fun w event => w.onRadioEvent Backend.radio event) w := play_handles events running
    have still : heard.Calm := calm_handles (p := p.beat take) (calm.congr rfl rfl rfl (Nat.le_refl _)) events
    have dispatches := play_dispatches still (by rw [hears]; exact running)
    let ends : List Beat := if p.station.driven.streamOpen then [] else [.driverEnds]
    refine ⟨take :: events.map .handles ++
      heard.world.central.dispatch.queue.map (fun _ => .dispatches) ++ ends, ?_, ?_⟩
    · simp only [List.mem_append, List.mem_cons, List.mem_map]
      rintro b (((rfl | ⟨event, -, rfl⟩) | ⟨a, -, rfl⟩) | mem)
      · exact forward
      · trivial
      · trivial
      · obtain rfl : b = .driverEnds := by
          by_cases streams : p.station.driven.streamOpen = true
          · simp [ends, streams] at mem
          · simpa [ends, streams] using mem
        trivial
    · rw [play_append, play_append]
      have whole : (heard.play (heard.world.central.dispatch.queue.map fun _ => .dispatches)).station =
          (p.beat take).station.onWorld (World.serve Backend.radio events) := by
        rw [dispatches, hears]
        rfl
      unfold Station.attend Driven.settle
      simp only
      rw [if_pos running]
      change ((heard.play _).play ends).station = _
      by_cases streams : p.station.driven.streamOpen = true
      · rw [if_pos streams, show ends = [] from if_pos streams]
        exact whole
      · rw [if_neg streams, show ends = [.driverEnds] from if_neg streams]
        simp only [play, List.foldl_cons, List.foldl_nil, beat]
        rw [← play, whole]
        rfl

end

/-- Shutting down leaks nothing. Wherever a run has led, and whatever the driver handles and the radio and
the clock do from then on: once the program is done, no peer is left, no scan is wanted or going on, and
each handle that the radio ever gave out has been given back, once. Until then the program waits for its
peers, and is done at the next look when the time is up, by a reset if need be, or when no peer is left,
without one; for when the driver takes the last peer out a report of it is made after that. -/
theorem shutdown_leaks_nothing {settings : Settings} {b : Backend} {p : Logged}
    (reached : World.Reached Backend.radio Backend.nextHandle settings b p.world) (line : Option String)
    (c : Conclusion) (beats : List Beat) (forward : ∀ b ∈ beats, b.Forward) :
    let q := (p.shutDown line c).play beats
    let deadline := p.station.now + shutdownGrace
    (q.station.activity = .done c ∧ q.world.central.registry = {} ∧
        q.world.central.scanner.requested = false ∧ q.world.central.scanner.active = false ∧
        q.log.issued.Perm q.log.released ∧ q.log.released.Nodup) ∨
      (q.station.activity = .draining deadline line c ∧
        (deadline ≤ q.station.now → (q.beat .looks).station.activity = .done c) ∧
        (q.world.central.isIdle = true → q.world.central.reports ≠ [] ∧
          (q.beat .looks).station.activity = .done c ∧ (q.beat .looks).log = q.log) ∧
        ∀ o, ((∃ event, o = .radioEvent event) ∨ o = .dispatchNext) → q.world.central.isIdle = false →
          (q.operate o).world.central.isIdle = true →
            World.ReportedEmpty (q.world.changes Backend.radio (.operation o))) := by
  intro q deadline
  have closing : q.Closing deadline line c :=
    (closing_shutDown (reached.accounted Backend.numbers) line c).play forward
  rcases closing.stage with ⟨draining, heard⟩ | ⟨done, -, idle⟩
  · right
    have looked := looked_looks draining
    refine ⟨draining, fun late => ?_, fun idle => ⟨heard idle, ?_⟩, fun o driver some none => ?_⟩
    · generalize q.beat .looks = next at looked
      cases looked with
      | drained | forced => exact (done_finish _ line c).1
      | waits early => exact absurd late (Nat.not_le_of_lt early)
    · generalize q.beat .looks = next at looked
      cases looked with
      | drained => exact ⟨(done_finish _ line c).1, rfl⟩
      | forced _ unseen | waits _ unseen => exact absurd (unseen idle) (heard idle)
    · rw [world_operate] at none
      refine closing.rest.reportedEmpty Backend.radio ?_ ?_ some none
      all_goals rcases driver with ⟨event, rfl⟩ | rfl <;> simp [Happening.Resets]
  · left
    have none := closing.accounted.orderly.eq_empty idle
    exact ⟨done, none, closing.rest.unwanted, closing.rest.off, closing.accounted.released none⟩

def subscribing : Logged :=
  let w := World.outcome Backend.radio Encounter.settings { hardware := {}, known := [⟨"a"⟩] }
    [.operation .start, .operation (.radioEvent (.advertisement ⟨"a"⟩ invitation)), .operation .dispatchNext,
      .operation (.radioEvent (.connected ⟨1⟩)),
      .operation (.radioEvent (.servicesDiscovered ⟨1⟩ [Encounter.service]))]
  { station := { settings := {}, driven := { world := w.forget } }, log := w.radio.log }

def partingBeats : List Beat :=
  [.handles (.descriptorWritten ⟨1⟩ Encounter.target.uuid disableNotification true), .looks]

def stallingBeats : List Beat := [.looks, .timePasses shutdownGrace, .looks]

theorem shutdown_of_subscribing :
    let parted := (subscribing.shutDown none .finished).play partingBeats
    let stalled := (subscribing.shutDown none .finished).play stallingBeats
    (parted.world.central.registry = {} ∧ parted.log.issued.Perm parted.log.released ∧
      parted.log.released = [⟨1⟩]) ∧
    stalled.world.central.registry = {} ∧ stalled.log.issued.Perm stalled.log.released ∧
      stalled.log.released = [⟨1⟩] := by
  intro parted stalled
  have reached : World.Reached Backend.radio Backend.nextHandle Encounter.settings
      { hardware := {}, known := [⟨"a"⟩] } subscribing.world :=
    World.reached_outcome _ _ _ (by simp)
  have forward : (∀ b ∈ partingBeats, b.Forward) ∧ ∀ b ∈ stallingBeats, b.Forward := by
    simp [partingBeats, stallingBeats, Beat.Forward]
  have parts : parted.station.activity = .done .finished := by cbv
  have stalls : stalled.station.activity = .done .finished := by cbv
  constructor
  · rcases shutdown_leaks_nothing (p := subscribing) reached none .finished partingBeats forward.1 with
      ⟨-, none, -, -, balance, -⟩ | ⟨drains, -⟩
    · exact ⟨none, balance, by cbv⟩
    · exact absurd (parts.symm.trans drains) (by simp)
  · rcases shutdown_leaks_nothing (p := subscribing) reached none .finished stallingBeats forward.2 with
      ⟨-, none, -, -, balance, -⟩ | ⟨drains, -⟩
    · exact ⟨none, balance, by cbv⟩
    · exact absurd (stalls.symm.trans drains) (by simp)

end Logged

end RadioCentral
