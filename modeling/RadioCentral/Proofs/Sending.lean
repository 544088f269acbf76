import RadioCentral.Proofs.Backend.Schedule
import RadioCentral.Proofs.Sending.Episodes

/-!
The command that sends, as it is carried out, is a course of episodes. So whatever it finds it leaves nothing
behind, unless it gives up waiting for the peer.
-/
namespace RadioCentral

theorem Backend.nextHandle_runTask (t : Task) (b : Backend) : (b.runTask t).nextHandle = b.nextHandle := by
  obtain ⟨_, _, grows⟩ := grows_runTask t b
  exact grows.nextHandle

namespace Station

variable {s t u : Station}

theorem Around.refl (s : Station) : s.Around s := ⟨rfl, rfl, ⟨_, rfl⟩, Nat.le_refl _, Nat.le_refl _, id⟩

theorem around_onRadio {f : Backend → Backend} (forward : ∀ b, b.nextHandle ≤ (f b).nextHandle)
    (s : Station) : s.Around (s.onRadio f) :=
  ⟨rfl, rfl, ⟨s.world.central.dispatch, rfl⟩, forward s.radio, Nat.le_refl _, id⟩

end Station

namespace Logged

variable {p : Logged} {s t : Station}

/-- A course of episodes that leads to a given state of the program. -/
def Attains (p : Logged) (s : Station) : Prop :=
  ∃ episodes : List Episode, (∀ e ∈ episodes, e.Forward) ∧ (p.course episodes).station = s

theorem Attains.refl (p : Logged) : p.Attains p.station := ⟨[], by simp, rfl⟩

theorem Attains.trans (begun : p.Attains s) (rest : ∀ q : Logged, q.station = s → q.Attains t) :
    p.Attains t := by
  obtain ⟨episodes, forward, rfl⟩ := begun
  obtain ⟨more, onward, rfl⟩ := rest _ rfl
  refine ⟨episodes ++ more, List.forall_mem_append.2 ⟨forward, onward⟩, ?_⟩
  rw [course, course, course, List.foldl_append]

theorem Attains.next {f : Station → Station} (begun : p.Attains s)
    (next : ∀ q : Logged, q.Attains (f q.station)) : p.Attains (f s) :=
  begun.trans fun q same => same ▸ next q

theorem attains_episode (d : Episode) (forward : d.Forward) (p : Logged) : p.Attains (p.undergo d).station :=
  ⟨[d], by simpa using forward, rfl⟩

theorem attains_around (change : Station → Station) (around : ∀ s, Station.Around s (change s)) (p : Logged) :
    p.Attains (change p.station) :=
  attains_episode (.around change) around p

theorem attains_onRadio {f : Backend → Backend} (forward : ∀ b, b.nextHandle ≤ (f b).nextHandle)
    (p : Logged) : p.Attains (p.station.onRadio f) :=
  attains_around (Station.onRadio f) (Station.around_onRadio forward) p

theorem attains_foldl {α : Type} {f : Station → α → Station}
    (each : ∀ x (p : Logged), p.Attains (f p.station x)) (xs : List α) (p : Logged) :
    p.Attains (xs.foldl f p.station) := by
  induction xs generalizing p with
  | nil => exact .refl p
  | cons x xs ih => exact (each x p).next (f := fun s => xs.foldl f s) ih

theorem attains_driven {α : Type} {f : World Backend → α → World Backend} {d : α → Episode}
    (does : ∀ x (p : Logged), p.station.driven.running = true →
      (p.undergo (d x)).station = p.station.onWorld fun w => f w x)
    (forward : ∀ x, (d x).Forward) (xs : List α) (p : Logged) (running : p.station.driven.running = true) :
    p.Attains (p.station.onWorld fun w => xs.foldl f w) := by
  induction xs generalizing p with
  | nil => exact .refl p
  | cons x xs ih =>
    have first := attains_episode (d x) (forward x) p
    rw [does x p running] at first
    refine first.trans fun q same => ?_
    have rest := ih q (by rw [same]; exact running)
    rw [same] at rest
    exact rest

/-- The driver takes the events of the radio one by one, and then the attempts. -/
theorem attains_serve (events : List RadioEvent) (p : Logged) (running : p.station.driven.running = true) :
    p.Attains (p.station.onWorld (World.serve Backend.radio events)) := by
  have heard := attains_driven (f := fun w event => w.onRadioEvent Backend.radio event) (d := .handles)
    (fun event p running => by rw [undergo, if_pos running]; rfl) (fun _ => trivial) events p running
  refine heard.trans fun q same => ?_
  let empty (w : World Backend) : World Backend :=
    { w with central := { w.central with dispatch := { w.central.dispatch with queue := [] } } }
  have emptied : q.Attains (q.station.onWorld empty) :=
    attains_around (fun s => s.onWorld empty)
      (fun s => ⟨rfl, rfl, ⟨_, rfl⟩, Nat.le_refl _, Nat.le_refl _, id⟩) q
  refine emptied.trans fun q' same' => ?_
  have dialed := attains_driven (f := fun w a => w.initiate Backend.radio a) (d := .initiates)
    (fun a p running => by rw [undergo, if_pos running]; rfl) (fun _ => trivial)
    q.station.world.central.dispatch.queue q' (by rw [same', same]; exact running)
  rw [same', same] at dialed
  exact dialed

theorem attains_attend (p : Logged) : p.Attains p.station.attend := by
  let take (s : Station) : Station := { s with driven := { s.driven with
    world := { s.world with radio := s.radio.takeEvents.2 }, inbox := s.driven.inbox ++ s.radio.takeEvents.1 } }
  let served (s : Station) : Station := { s with driven := { s.driven with inbox := [] } }
  let ended (s : Station) : Station :=
    { s with driven := { s.driven with world := s.driven.world.dropDispatch, inbox := [], running := false } }
  have taken : p.Attains (take p.station) :=
    attains_around take (fun s => ⟨rfl, rfl, ⟨_, rfl⟩, Nat.le_refl _, Nat.le_refl _, id⟩) p
  refine taken.next (f := fun s => { s with driven := s.driven.settle Backend.radio }) fun q => ?_
  unfold Driven.settle
  split
  case isTrue running =>
    have begun := attains_serve q.station.driven.inbox q running
    split
    · exact begun.next (f := served) (attains_around served fun s =>
        ⟨rfl, rfl, ⟨_, rfl⟩, Nat.le_refl _, Nat.le_refl _, id⟩)
    · exact begun.next (f := ended) (attains_around ended fun s =>
        ⟨rfl, rfl, ⟨_, rfl⟩, Nat.le_refl _, Nat.le_refl _, fun none => by cases none⟩)
  case isFalse => exact .refl q

theorem attains_runTask (t : Task) (p : Logged) : p.Attains (p.station.runTask t) := by
  cases t with
  | attend => exact attains_attend p
  | start | resume | deliver | read =>
    exact attains_onRadio (fun b => Nat.le_of_eq (Backend.nextHandle_runTask _ b).symm) p

theorem attains_pass (p : Logged) : p.Attains p.station.pass := by
  have taken : p.Attains (p.station.onRadio fun b => { b with ready := [] }) :=
    attains_onRadio (f := fun b => { b with ready := [] }) (fun _ => Nat.le_refl _) p
  exact taken.next (f := fun s => p.station.radio.ready.foldl (fun s t => s.runTask t) s)
    (attains_foldl (f := fun s t => s.runTask t) attains_runTask _)

theorem attains_poll (p : Logged) : p.Attains p.station.poll :=
  attains_foldl (fun _ p => attains_episode .looks trivial p) (List.range 8) p

theorem attains_settleWithin (rounds : Nat) (p : Logged) : p.Attains (p.station.settleWithin rounds) := by
  induction rounds generalizing p with
  | zero => exact .refl p
  | succ rounds ih =>
    unfold Station.settleWithin
    simp only
    split
    · split
      · exact attains_poll p
      · exact (attains_poll p).next ih
    · exact (attains_pass p).next ih

theorem attains_occur (o : Occurrence) (p : Logged) : p.Attains (p.station.occur o) := by
  cases o with
  | stimulus stimulus => exact attains_onRadio (fun b => (Backend.quiet_stimulate stimulus b).nextHandle) p
  | interrupt =>
    refine attains_around (Station.occur .interrupt) (fun s => ?_) p
    simp only [Station.occur]
    split
    · exact ⟨rfl, rfl, ⟨_, rfl⟩, Nat.le_refl _, Nat.le_refl _, id⟩
    · exact .refl s

theorem attains_happen (p : Logged) : p.Attains p.station.happen := by
  let due := p.station.agenda.takeWhile fun entry => entry.1 ≤ p.station.now
  have taken := attains_around
    (fun s => { s with agenda := s.agenda.dropWhile fun entry => entry.1 ≤ s.now })
    (fun s => ⟨rfl, rfl, ⟨_, rfl⟩, Nat.le_refl _, Nat.le_refl _, id⟩) p
  have occurred := taken.next (f := fun s => due.foldl (fun s entry => s.occur entry.2) s)
    (attains_foldl (f := fun s (entry : Nat × Occurrence) => s.occur entry.2)
      (fun entry p => attains_occur entry.2 p) due)
  exact (occurred.next attains_poll).next (attains_settleWithin Station.enoughRounds)

theorem attains_goTo (moment : Nat) (p : Logged) : p.Attains (p.station.goTo moment) := by
  have later := attains_around (fun s => { s with now := max s.now moment })
    (fun s => ⟨rfl, rfl, ⟨_, rfl⟩, Nat.le_refl _, Nat.le_max_left _ _, id⟩) p
  exact later.next attains_happen

theorem attains_finishWithin (moments : Nat) (p : Logged) : p.Attains (p.station.finishWithin moments) := by
  induction moments generalizing p with
  | zero => exact .refl p
  | succ moments ih =>
    unfold Station.finishWithin
    split
    · exact .refl p
    · exact .refl p
    case h_3 moment _ _ => exact (attains_goTo moment p).next ih

theorem attains_finish (p : Logged) : p.Attains p.station.finish :=
  (attains_settleWithin _ p).next (f := fun s => s.finishWithin (p.station.agenda.length + 4))
    (attains_finishWithin _)

def launched (settings : AppSettings) (nonce : Option Int32) (drawn : Int32) (order : Registry.Order)
    (hardware : Hardware) (script : List (Nat × Occurrence)) (errand : Errand) : Logged :=
  let s := Station.ofHardware settings nonce drawn order hardware
  (Logged.mk (s.schedule (script.map fun entry => (s.now + entry.1, entry.2))) []).launch errand

theorem sending_launched (settings : AppSettings) (nonce : Option Int32) (drawn : Int32) (order : Registry.Order)
    (hardware : Hardware) (script : List (Nat × Occurrence)) (r : Address) (c : Uuid) (data : Bytes) :
    Sending r (launched settings nonce drawn order hardware script (.send r c data)) := by
  let s := Station.ofHardware settings nonce drawn order hardware
  let begun : Logged := ⟨s.schedule (script.map fun entry => (s.now + entry.1, entry.2)), []⟩
  have accounted : begun.world.Accounted Backend.nextHandle :=
    ⟨Registry.orderly_empty, conserved_empty, List.Pairwise.nil, fun _ mem => absurd mem List.not_mem_nil⟩
  have rest : begun.world.AtRest := ⟨rfl, rfl, fun a p here => by cases here⟩
  have told : begun.world.ScanTold := iff_of_false Bool.false_ne_true Log.not_scans_nil
  exact Sound.onProgress (p := begun) ⟨accounted, told⟩ ⟨accounted, rest⟩ rfl r c data _

theorem Sending.course {r : Address} (sending : Sending r p) {episodes : List Episode}
    (forward : ∀ e ∈ episodes, e.Forward) : Sending r (p.course episodes) := by
  induction episodes generalizing p with
  | nil => exact sending
  | cons d episodes ih =>
    obtain ⟨first, rest⟩ := List.forall_mem_cons.1 forward
    exact ih (sending.undergo first) rest

/-- What a program that is done has left. -/
theorem Sending.left {r : Address} {c : Conclusion} (sending : Sending r p)
    (done : p.station.activity = .done c) :
    (c ≠ neverReady r → p.LeavesNothing) ∧ (c = neverReady r → p.world.central.scanner.requested = true) := by
  have clean (calm : p.Calm) (idle : p.world.central.isIdle = true) : p.LeavesNothing := by
    have none := calm.accounted.orderly.eq_empty idle
    obtain ⟨returned, once⟩ := calm.accounted.released none
    refine ⟨calm.rest.unwanted, calm.rest.off, fun scans => ?_, none, returned, once⟩
    exact Bool.false_ne_true (calm.rest.off.symm.trans (sending.told.2 scans))
  cases sending.stage with
  | opening now => rw [now] at done; cases done
  | awaiting now => rw [now] at done; cases done
  | confirming now => rw [now] at done; cases done
  | unopened now calm idle other =>
    obtain rfl := Activity.done.inj (now.symm.trans done)
    exact ⟨fun _ => clean calm idle, fun same => absurd same other⟩
  | gaveUp now wanted =>
    obtain rfl := Activity.done.inj (now.symm.trans done)
    exact ⟨fun other => absurd rfl other, fun _ => wanted⟩
  | closing closing other =>
    rcases closing.stage with ⟨draining, -⟩ | ⟨now, -, idle⟩
    · rw [draining] at done
      cases done
    · obtain rfl := Activity.done.inj (now.symm.trans done)
      exact ⟨fun _ => clean closing.toCalm idle, fun same => absurd same other⟩

/-- The command that sends leaves nothing behind, unless it gives up waiting for the peer. -/
theorem send_leaves_nothing_unless (settings : AppSettings) (nonce : Option Int32) (drawn : Int32)
    (order : Registry.Order) (hardware : Hardware) (script : List (Nat × Occurrence))
    (r : Address) (c : Uuid) (data : Bytes) :
    let begun := launched settings nonce drawn order hardware script (.send r c data)
    (∀ episodes : List Episode, (∀ e ∈ episodes, e.Forward) → ∀ conclusion,
      (begun.course episodes).station.activity = .done conclusion →
        (conclusion ≠ neverReady r → (begun.course episodes).LeavesNothing) ∧
        (conclusion = neverReady r → (begun.course episodes).world.central.scanner.requested = true)) ∧
      begun.Attains ((Station.ofHardware settings nonce drawn order hardware).complete
        (Station.launch (.send r c data)) script).2.2 := by
  intro begun
  have sending : Sending r begun := sending_launched settings nonce drawn order hardware script r c data
  exact ⟨fun episodes forward conclusion done => (sending.course forward).left done, attains_finish begun⟩

namespace Site

def hardware : Hardware :=
  { devices := [(⟨"a"⟩,
      { sighting := some { services := [.meshService], serviceData := [(.expand 0xfe2c, [0, 0, 0, 5])] }
        gatt := [⟨.meshService, [⟨.expand 0x2a38, .write, []⟩]⟩] })] }

def script : List (Nat × Occurrence) := [(10, .stimulus (.adapterEvent (.seen ⟨"a"⟩)))]

def send (r : Address) : Errand := .send r (.expand 0x2a38) [0xde, 0xad]

def run (r : Address) : Conclusion × Nat × Station :=
  (Station.ofHardware {} none 3 .admission hardware).complete (Station.launch (send r)) script

end Site

theorem delivery_leaves_nothing :
    (Site.run ⟨"a"⟩).2.2.printed = ["Sent 2 bytes to a"] ∧
      ∃ p : Logged, p.station = (Site.run ⟨"a"⟩).2.2 ∧ p.LeavesNothing := by
  obtain ⟨each, episodes, forward, same⟩ :=
    send_leaves_nothing_unless {} none 3 .admission Site.hardware Site.script ⟨"a"⟩ (.expand 0x2a38) [0xde, 0xad]
  have done : (Site.run ⟨"a"⟩).2.2.activity = .done .finished := by cbv
  refine ⟨by cbv, _, same, (each episodes forward .finished ?_).1 (by simp [neverReady])⟩
  rw [same]
  exact done

/-- A peer that is never seen: the command gives up after thirty seconds, the adapter goes on scanning, and
the link to the device that was seen meanwhile stays open. -/
theorem scan_left_by_send :
    let (conclusion, elapsed, s) := Site.run ⟨"b"⟩
    conclusion = neverReady ⟨"b"⟩ ∧ elapsed = 30000 ∧ s.world.central.scanner.requested = true ∧
      s.radio.hardware.adapterCalls = [.startScan [], .stopScan, .startScan []] ∧
      s.radio.links.map (·.handle) = [⟨1⟩] := by
  refine ⟨?_, ?_, ?_, ?_, ?_⟩
  all_goals cbv

end Logged

end RadioCentral
