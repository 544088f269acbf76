import RadioCentral.Proofs.Delivery

/-!
What a write comes to. It is decided by the first characteristic of that name on the peer: without the
write property it is the caller's mistake whatever the phase, and with it the request goes out exactly
if the peer is ready. A ready peer always has a handle for it to go out on, and nothing but the radio is
touched.
-/
namespace RadioCentral

variable {σ : Type}

namespace Peer

theorem characteristic?_eq_some {p : Peer} {u : Uuid} {t : Characteristic} :
    p.characteristic? u = some t ↔
      ∃ before after, p.discovered = some (before ++ t :: after) ∧ t.uuid = u ∧
        ∀ c ∈ before, c.uuid ≠ u := by
  unfold characteristic?
  cases p.discovered with
  | none => simp
  | some cs =>
    simp only [Option.bind_some, List.find?_eq_some_iff_append, Option.some.injEq, decide_eq_true_eq,
      Bool.not_eq_true', decide_eq_false_iff_not]
    constructor
    · rintro ⟨named, before, after, split, others⟩
      exact ⟨before, after, split, named, others⟩
    · rintro ⟨before, after, split, named, others⟩
      exact ⟨named, before, after, split, others⟩

def Explored (p : Peer) : Prop := p.phase.delivers = true → ∃ cs, cs ≠ [] ∧ p.discovered = some cs

theorem Proceeds.explored {policy : LinkPolicy} {p q : Peer} {event : PeerEvent} {actions : List Action}
    (moved : p.Proceeds policy event q actions) (hp : p.Explored) : q.Explored := by
  cases moved with
  | request | linkUp | reject | leave => exact fun delivers => absurd delivers (by simp [leaving, Phase.delivers])
  | @subscribe cs _ targets =>
    refine fun _ => ⟨cs, ?_, rfl⟩
    rintro rfl
    exact targets rfl
  | negotiate done | ready done =>
    cases done with
    | @nothingWanted cs _ some => exact fun _ => ⟨cs, some, rfl⟩
    | lastEnabled phase => exact fun _ => hp (by rw [phase]; rfl)
  | negotiated phase | unnegotiated phase => exact fun _ => hp (by rw [phase]; rfl)
  | note | enabled | settled | late => exact hp

theorem kept_explored : Kept Explored :=
  ⟨fun _ delivers => absurd delivers (by simp [Phase.delivers]), fun _ _ hp => hp, fun moved hp => moved.explored hp⟩

end Peer

namespace World

def Offers (w : World σ) (a : Address) (u : Uuid) (t : Characteristic) : Prop :=
  ∃ p before after, w.central.registry.get? a = some p ∧ p.discovered = some (before ++ t :: after) ∧
    t.uuid = u ∧ ∀ c ∈ before, c.uuid ≠ u

theorem offers_iff {w : World σ} {a : Address} {u : Uuid} {t : Characteristic} :
    w.Offers a u t ↔ ∃ p, w.central.registry.get? a = some p ∧ p.characteristic? u = some t := by
  simp only [Offers, Peer.characteristic?_eq_some]
  constructor
  · rintro ⟨p, before, after, here, rest⟩
    exact ⟨p, here, before, after, rest⟩
  · rintro ⟨p, here, before, after, rest⟩
    exact ⟨p, before, after, here, rest⟩

theorem Offers.unique {w : World σ} {a : Address} {u : Uuid} {t t' : Characteristic}
    (offered : w.Offers a u t) (offered' : w.Offers a u t') : t' = t := by
  obtain ⟨p, here, found⟩ := offers_iff.1 offered
  obtain ⟨q, there, found'⟩ := offers_iff.1 offered'
  obtain rfl : p = q := Option.some.inj (here.symm.trans there)
  exact Option.some.inj (found'.symm.trans found)

/-- The ways a write can go. -/
inductive Written (R : Radio σ) (w : World σ) (data : Bytes) (u : Uuid) (a : Address) :
    Except CentralError Bool × World σ → Prop where
  | unknown (none : ∀ t, ¬ w.Offers a u t) : Written R w data u a (.ok false, w)
  | refused {t : Characteristic} (offered : w.Offers a u t) (lacks : t.isWritable = false) :
      Written R w data u a (.error (.characteristicNotWritable u), w)
  | early {t : Characteristic} {p : Peer} (offered : w.Offers a u t) (has : t.isWritable = true)
      (here : w.central.registry.get? a = some p) (idle : p.handle = none ∨ p.phase ≠ .ready) :
      Written R w data u a (.ok false, w)
  | issued {t : Characteristic} {p : Peer} {h : Handle} (offered : w.Offers a u t)
      (has : t.isWritable = true) (here : w.central.registry.get? a = some p) (ready : p.phase = .ready)
      (holds : p.handle = some h) :
      Written R w data u a
        (.ok (R.ask (.write h u data .withResponse) w.radio).1,
          { w with radio := (R.ask (.write h u data .withResponse) w.radio).2 })

theorem written_write (R : Radio σ) (w : World σ) (data : Bytes) (u : Uuid) (a : Address) :
    Written R w data u a (w.write R data u a) := by
  by_cases offers : ∃ t, w.Offers a u t
  · obtain ⟨t, offered⟩ := offers
    obtain ⟨p, here, found⟩ := offers_iff.1 offered
    obtain ⟨-, -, -, rfl, -⟩ := Peer.characteristic?_eq_some.1 found
    simp only [write, here, found]
    by_cases has : t.isWritable = true
    · rw [if_neg (not_not.2 has)]
      cases holds : p.handle with
      | none => exact .early offered has here (Or.inl holds)
      | some h =>
        by_cases ready : p.phase = .ready
        · simp only [Peer.isReady, ready, decide_true, ↓reduceIte]
          exact .issued offered has here ready holds
        · simp only [Peer.isReady, ready, decide_false, Bool.false_eq_true, ↓reduceIte]
          exact .early offered has here (Or.inr ready)
    · rw [if_pos has]
      exact .refused offered (Bool.not_eq_true _ ▸ has)
  · have none : w.write R data u a = (.ok false, w) := by
      unfold write
      cases here : w.central.registry.get? a with
      | none => rfl
      | some p =>
        cases found : p.characteristic? u with
        | none => simp only [found]
        | some t => exact absurd ⟨t, offers_iff.2 ⟨p, here, found⟩⟩ offers
    rw [none]
    exact .unknown (not_exists.1 offers)

/-- A write is decided by the first characteristic of its name on the peer. It is an error exactly if
that one lacks the write property, in whatever phase. A request goes out exactly if it has the property
and the peer is ready: one acknowledged write of the data on the handle the peer holds, and the answer is
the radio's. Otherwise the answer is no. Nothing but the radio is touched, and not even that unless a
request goes out; and a ready peer always has a handle, and characteristics to write to. -/
theorem write_decided (R : Radio σ) (settings : Settings) (s : σ) (history : List (Happening σ))
    (data : Bytes) (u : Uuid) (a : Address) :
    let w := outcome R settings s history
    let (answer, w') := w.write R.recorded data u a
    (∀ e, answer = .error e ↔
      e = .characteristicNotWritable u ∧ ∃ t, w.Offers a u t ∧ t.isWritable = false) ∧
    (w'.radio.log ≠ w.radio.log ↔
      ∃ t p, w.Offers a u t ∧ t.isWritable = true ∧ w.central.registry.get? a = some p ∧ p.phase = .ready) ∧
    (w'.radio.log ≠ w.radio.log → ∃ p h, w.central.registry.get? a = some p ∧ p.handle = some h ∧
      let asked := R.ask (.write h u data .withResponse) w.radio.state
      answer = .ok asked.1 ∧ w'.radio.state = asked.2 ∧
        w'.radio.log = w.radio.log ++ [.asked (.write h u data .withResponse) asked.1]) ∧
    (w'.radio.log = w.radio.log → w' = w ∧ ((∃ e, answer = .error e) ∨ answer = .ok false)) ∧
    w'.central = w.central ∧
    ∀ p, w.central.registry.get? a = some p → p.phase = .ready →
      (∃ h, p.handle = some h) ∧ ∃ cs, cs ≠ [] ∧ p.discovered = some cs := by
  intro w
  have orderly : w.central.registry.Orderly := orderly_outcome R settings s history
  have linked (p : Peer) (here : w.central.registry.get? a = some p) (ready : p.phase = .ready) :
      ∃ h, p.handle = some h :=
    Option.isSome_iff_exists.1 ((orderly.live a p here).holding (by simp [ready]))
  have explored (p : Peer) (here : w.central.registry.get? a = some p) (ready : p.phase = .ready) :
      ∃ cs, cs ≠ [] ∧ p.discovered = some cs :=
    every_outcome Peer.kept_explored R settings s history a p here (by rw [ready]; rfl)
  have one {t t' : Characteristic} (offered : w.Offers a u t) (offered' : w.Offers a u t') :
      t' = t := offered.unique offered'
  have written := written_write R.recorded w data u a
  generalize w.write R.recorded data u a = r at written
  refine ⟨?_, ?_, ?_, ?_, ?_, fun p here ready => ⟨linked p here ready, explored p here ready⟩⟩
  case refine_1 =>
    cases written with
    | unknown none => simp [none]
    | @refused t offered lacks =>
      exact fun e => ⟨by rintro ⟨⟩; exact ⟨rfl, t, offered, lacks⟩, by rintro ⟨rfl, -⟩; rfl⟩
    | @early t _ offered has | @issued t _ _ offered has =>
      refine fun e => ⟨by rintro ⟨⟩, ?_⟩
      rintro ⟨-, t', offered', lacks⟩
      simp [one offered offered', has] at lacks
  case refine_2 =>
    cases written with
    | unknown none => simp [none]
    | refused offered lacks =>
      refine ⟨fun grown => absurd rfl grown, ?_⟩
      rintro ⟨t', _, offered', has, -⟩
      simp [one offered offered', lacks] at has
    | early offered has here idle =>
      refine ⟨fun grown => absurd rfl grown, ?_⟩
      rintro ⟨_, q, -, -, there, ready⟩
      obtain rfl := Option.some.inj (here.symm.trans there)
      obtain ⟨h, holds⟩ := linked _ here ready
      simp [holds, ready] at idle
    | issued offered has here ready =>
      exact ⟨fun _ => ⟨_, _, offered, has, here, ready⟩, fun _ => by simp [Radio.recorded]⟩
  case refine_3 =>
    cases written with
    | unknown | refused | early => exact fun grown => absurd rfl grown
    | issued offered has here ready holds => exact fun _ => ⟨_, _, here, holds, rfl, rfl, rfl⟩
  case refine_4 =>
    cases written with
    | unknown | early => exact fun _ => ⟨rfl, Or.inr rfl⟩
    | refused => exact fun _ => ⟨rfl, Or.inl ⟨_, rfl⟩⟩
    | issued => exact fun same => absurd same (by simp [Radio.recorded])
  case refine_5 => cases written <;> rfl

end World

namespace Encounter

def outlet : Characteristic := { uuid := Uuid.expand 0x2a38, properties := .write }

def equipped : List (Happening SimulatedRadio) :=
  history.take 4 ++ [.operation (.radioEvent (.servicesDiscovered ⟨1⟩
    [{ service with characteristics := [target.withClientConfiguration, outlet] }]))] ++
    (history.drop 5).take 2

end Encounter

namespace World

/-- On the linked peer a write goes out to the outlet, and to the target it is a mistake. -/
theorem write_decided_equipped :
    let w := outcome SimulatedRadio.radio Encounter.settings {} Encounter.equipped
    let written := w.write SimulatedRadio.radio.recorded [7] Encounter.outlet.uuid ⟨"a"⟩
    written.1 = .ok true ∧
    written.2.radio.log = w.radio.log ++ [.asked (.write ⟨1⟩ Encounter.outlet.uuid [7] .withResponse) true] ∧
    (w.write SimulatedRadio.radio.recorded [7] Encounter.target.uuid ⟨"a"⟩).1 =
      .error (.characteristicNotWritable Encounter.target.uuid) := by
  have found : ((outcome SimulatedRadio.radio Encounter.settings {} Encounter.equipped).central.registry.get?
      ⟨"a"⟩).map (fun p => (p.phase, p.handle, p.discovered)) =
      some (.ready, some ⟨1⟩, some [Encounter.target.withClientConfiguration, Encounter.outlet]) := by cbv
  have accepts : (SimulatedRadio.radio.ask (.write ⟨1⟩ Encounter.outlet.uuid [7] .withResponse)
      (outcome SimulatedRadio.radio Encounter.settings {} Encounter.equipped).radio.state).1 = true := by cbv
  generalize Encounter.equipped = history at found accepts ⊢
  obtain ⟨p, here, facts⟩ := Option.map_eq_some_iff.1 found
  obtain ⟨ready, holds, discovered⟩ : p.phase = .ready ∧ p.handle = some ⟨1⟩ ∧
    p.discovered = some [Encounter.target.withClientConfiguration, Encounter.outlet] := by simpa using facts
  have outlet : (outcome SimulatedRadio.radio Encounter.settings {} history).Offers ⟨"a"⟩
      Encounter.outlet.uuid Encounter.outlet :=
    ⟨p, [Encounter.target.withClientConfiguration], [], here, discovered, rfl, by decide⟩
  have target : (outcome SimulatedRadio.radio Encounter.settings {} history).Offers ⟨"a"⟩
      Encounter.target.uuid Encounter.target.withClientConfiguration :=
    ⟨p, [], [Encounter.outlet], here, discovered, rfl, by decide⟩
  obtain ⟨-, goes, how, -, -, -⟩ := write_decided SimulatedRadio.radio Encounter.settings {} history [7]
    Encounter.outlet.uuid ⟨"a"⟩
  obtain ⟨mistake, -, -, -, -, -⟩ := write_decided SimulatedRadio.radio Encounter.settings {} history [7]
    Encounter.target.uuid ⟨"a"⟩
  obtain ⟨q, h, there, linked, answer, -, asked⟩ := how (goes.2 ⟨_, p, outlet, by decide, here, ready⟩)
  obtain rfl : p = q := Option.some.inj (here.symm.trans there)
  obtain rfl : ⟨1⟩ = h := Option.some.inj (holds.symm.trans linked)
  rw [accepts] at answer asked
  exact ⟨answer, asked, (mistake _).2 ⟨rfl, _, target, by decide⟩⟩

end World

end RadioCentral
