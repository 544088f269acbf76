import RadioCentral.Proofs.Backend.Growth
import RadioCentral.Proofs.Locality
import RadioCentral.Proofs.Peer.Knobs
import RadioCentral.Proofs.Run.Numbering

/-!
One link among others. Of a world, a link is concerned by the peer of its address, what is asked on its
handle, what is reported of it, and the part of the radio that answers there: this is its strand. What is
done for other peers leaves the strand alone, and what is done for its own peer, once the services are
there, goes by the strand and by nothing else.
-/
namespace RadioCentral

open Registry (Step)

variable {σ τ : Type}

/-! ### The part of a radio that a link has to itself -/

/-- What a radio answers on a handle comes from a part of its state, and nothing but requests on that
handle changes this part, from when the handle was given out. -/
structure Radio.Isolates (R : Radio σ) (h : Handle) (part : σ → τ) : Prop where
  negotiates : ∀ s s', part s = part s' → R.negotiates s = R.negotiates s'
  own : ∀ request s s', request.handle? = some h → part s = part s' →
    (R.ask request s).1 = (R.ask request s').1 ∧ part (R.ask request s).2 = part (R.ask request s').2
  other : ∀ request s, request.handle? ≠ some h → part (R.ask request s).2 = part s
  connect : ∀ a route s, (R.connect a route s).1.toOption ≠ some h → part (R.connect a route s).2 = part s

theorem SimulatedRadio.isolates (h : Handle) : SimulatedRadio.radio.Isolates h SimulatedRadio.flags where
  negotiates s s' same := by simp only [radio, same]
  own request s s' _ same := by simp only [radio, record, same, and_self]
  other _ _ _ := rfl
  connect a route s _ := by
    by_cases accepts : accepts s.flags route = true <;> simp [radio, record, accepts]

namespace Backend

/-- The device of a handle, with what was discovered on it. -/
def footing (h : Handle) (b : Backend) : Option (Address × List Service) :=
  (b.links.device? h).map fun device => (device, b.hardware.services device)

theorem footing_congr {h : Handle} {b b' : Backend} (device : b'.links.device? h = b.links.device? h)
    (hardware : b'.hardware = b.hardware) : b'.footing h = b.footing h := by
  simp only [footing, device, hardware]

theorem device?_of_footing {h : Handle} {b b' : Backend} (same : b.footing h = b'.footing h) :
    b.links.device? h = b'.links.device? h := by
  simpa [footing, Function.comp_def] using congrArg (Option.map Prod.fst) same

theorem services_of_footing {h : Handle} {b b' : Backend} (same : b.footing h = b'.footing h) :
    ∀ device, b.links.device? h = some device →
      b.hardware.services device = b'.hardware.services device := by
  intro device found
  have found' : b'.links.device? h = some device := (device?_of_footing same).symm.trans found
  simpa [footing, found, found'] using same

theorem device?_setNotifying (links : LinkTable) (k : Handle) (c : Uuid) (enable : Bool) (h : Handle) :
    LinkTable.device? (links.setNotifying k c enable).2 h = links.device? h :=
  LinkTable.device?_modify (fun _ => by rfl) (fun _ => by rfl) links k h

/-- What the backend answers on a handle comes from its device and what was discovered there. -/
theorem isolates (h : Handle) : Backend.radio.Isolates h (footing h) := by
  constructor
  case negotiates => exact fun _ _ _ => rfl
  case own =>
    intro request b b' named same
    have device := device?_of_footing same
    cases request with
    | startScan | stopScan => cases named
    | requestUnitSize | invalidateCache => exact ⟨rfl, same⟩
    | setNotify k c enable =>
      obtain rfl := Option.some.inj named
      have kept (b : Backend) : footing k (Backend.radio.ask (.setNotify k c enable) b).2 = b.footing k :=
        footing_congr (device?_setNotifying b.links k c enable k) rfl
      rw [kept, kept]
      refine ⟨?_, same⟩
      show b.links.isOpen k = b'.links.isOpen k
      rw [LinkTable.isOpen_eq, LinkTable.isOpen_eq, device]
    | discover k | writeDescriptor k | disconnect k =>
      obtain rfl := Option.some.inj named
      simp only [radio, ask, onLink, ← device]
      split <;> exact ⟨rfl, same⟩
    | write k c value mode =>
      obtain rfl := Option.some.inj named
      simp only [radio, ask, write, ← device]
      cases found : b.links.device? k with
      | none => exact ⟨rfl, same⟩
      | some device =>
        have services := services_of_footing same device found
        simp only [Hardware.attribute?, ← services]
        split <;> exact ⟨rfl, same⟩
    | release k =>
      obtain rfl := Option.some.inj named
      simp only [radio, ask, release, ← device]
      split
      · exact ⟨trivial, by simp [footing, spawn, LinkTable.device?_close]⟩
      · exact ⟨trivial, same⟩
  case other =>
    intro request b other
    cases request with
    | startScan | stopScan | requestUnitSize | invalidateCache => rfl
    | setNotify k c enable => exact footing_congr (device?_setNotifying b.links k c enable h) rfl
    | discover | writeDescriptor | disconnect =>
      simp only [radio, ask, onLink]
      split <;> rfl
    | write =>
      simp only [radio, ask, write]
      (repeat' split) <;> rfl
    | release k =>
      have free : h ≠ k := fun same => other (by rw [same]; rfl)
      simp only [radio, ask, release]
      split
      · exact footing_congr ((LinkTable.device?_close b.links k h).trans (if_neg free)) rfl
      · rfl
  case connect =>
    intro a route b other
    cases route with
    | lowEnergy => rfl
    | standard =>
      simp only [radio, dial] at other ⊢
      split
      · rename_i known
        have free : (⟨b.nextHandle⟩ : Handle) ≠ h := fun same => other (by simp [known, same, Except.toOption])
        refine footing_congr ?_ rfl
        simp [spawn, LinkTable.device?, LinkTable.get?, free]
      · rfl

end Backend
/-- A radio came from one state to another, and touched a part only if it shows in the record: by a
request on the handle, or because the handle was given out. -/
structure Spared (part : σ → τ) (h : Handle) (r r' : Recorded σ) : Prop where
  asked : r.log.requestsOn h <+: r'.log.requestsOn h
  given : r.log.issued.count h ≤ r'.log.issued.count h
  part : r'.log.requestsOn h = r.log.requestsOn h → r'.log.issued.count h = r.log.issued.count h →
    part r'.state = part r.state

theorem Spared.refl (part : σ → τ) (h : Handle) (r : Recorded σ) : Spared part h r r :=
  ⟨List.prefix_refl _, Nat.le_refl _, fun _ _ => rfl⟩

section Radio

variable {R : Radio σ} {part : σ → τ} {h : Handle}

/-- Every answer of a radio keeps to the part it has to itself. -/
theorem Radio.Isolates.keeps (isolates : R.Isolates h part) (r : Recorded σ) :
    R.recorded.Keeps (Spared part h r) := by
  constructor
  case connect =>
    intro a route s spared
    have grown : (R.recorded.connect a route s).2.log =
        s.log ++ [.dialed a route (R.connect a route s.state).1.toOption] := rfl
    have asked : (R.recorded.connect a route s).2.log.requestsOn h = s.log.requestsOn h := by
      rw [grown, Log.requestsOn_append, Log.requestsOn_dialed, List.append_nil]
    have given : (R.recorded.connect a route s).2.log.issued.count h =
        s.log.issued.count h + (R.connect a route s.state).1.toOption.toList.count h := by
      rw [grown, Log.issued_append, Log.issued_dialed, List.count_append]
    refine ⟨asked ▸ spared.asked, given ▸ Nat.le_add_right_of_le spared.given, fun still same => ?_⟩
    have before := spared.given
    have other : (R.connect a route s.state).1.toOption ≠ some h := by
      intro gives
      rw [given, gives] at same
      simp only [Option.toList_some, List.count_singleton_self] at same
      omega
    exact (isolates.connect a route s.state other).trans (spared.part (asked ▸ still) (by omega))
  case ask =>
    intro request s spared
    have grown : (R.recorded.ask request s).2.log =
        s.log ++ [.asked request (R.ask request s.state).1] := rfl
    have asked : (R.recorded.ask request s).2.log.requestsOn h =
        s.log.requestsOn h ++ if request.handle? = some h then [request] else [] := by
      rw [grown, Log.requestsOn_append, Log.requestsOn_asked]
    have given : (R.recorded.ask request s).2.log.issued = s.log.issued := by
      rw [grown, Log.issued_append, Log.issued_asked, List.append_nil]
    refine ⟨asked ▸ spared.asked.trans (List.prefix_append _ _), given ▸ spared.given, fun still same => ?_⟩
    rw [asked] at still
    rw [given] at same
    by_cases named : request.handle? = some h
    · rw [if_pos named] at still
      have shorter := spared.asked.length_le
      have longer := congrArg List.length still
      simp only [List.length_append, List.length_singleton] at longer
      omega
    · rw [if_neg named, List.append_nil] at still
      exact (isolates.other request s.state named).trans (spared.part still same)

end Radio

/-! ### What is done for other peers -/

namespace Registry

/-- No peer but that of an address is held by a handle, and all of them are under way. -/
def Apart (a : Address) (h : Handle) (r : Registry) : Prop :=
  ∀ b q, b ≠ a → r.get? b = some q → q.phase ≠ .idle ∧ q.handle ≠ some h

variable {a b : Address} {h : Handle} {r : Registry} {policy : LinkPolicy} {event : PeerEvent}

theorem Orderly.apart (orderly : r.Orderly) (leads : r.Leads h) (known : r.addressFor? h = some a) :
    r.Apart a h := by
  refine fun b q other there => ⟨(orderly.live b q there).begun, fun holds => other ?_⟩
  exact Option.some.inj ((leads b q there holds).symm.trans known)

theorem Apart.runs (apart : r.Apart a h) (other : b ≠ a) : ∃ held, r.Runs b held ∧ held ≠ some h := by
  cases there : r.get? b with
  | none => exact ⟨none, fun q there' => by simp [there] at there', by simp⟩
  | some q =>
    obtain ⟨begun, holds⟩ := apart b q other there
    refine ⟨q.handle, fun q' there' => ?_, holds⟩
    obtain rfl := Option.some.inj (there.symm.trans there')
    exact ⟨begun, rfl⟩

theorem Apart.advance (apart : r.Apart a h) : (r.advance policy b event).2.Apart a h := by
  intro c q other there
  by_cases own : c = b
  · subst own
    obtain ⟨held, runs, free⟩ := apart.runs other
    have after : (r.advance policy c event).2.Runs c held := runs.advance
    obtain ⟨begun, rfl⟩ := after q there
    exact ⟨begun, free⟩
  · rw [get?_advance_ne own] at there
    exact apart c q other there

/-- Steps on one handle make no requests on another. -/
theorem owed_eq_nil_of_local {held : Option Handle} (free : held ≠ some h) {steps : List Step}
    (near : ∀ step ∈ steps, step.Local held) : owed h steps = [] := by
  induction steps with
  | nil => rfl
  | cons step steps ih =>
    obtain ⟨first, rest⟩ := List.forall_mem_cons.1 near
    rw [owed_cons, first.owed_eq_nil free, ih rest, List.append_nil]

end Registry

namespace Peer

variable {policy policy' : LinkPolicy} {p : Peer}

/-- Past the discovery, policies with the same unit size are not told apart. -/
theorem react_of_unitSize (event : PeerEvent) (same : policy.unitSize = policy'.unitSize)
    (past : p.phase ≠ .discovering) :
    p.react policy event = p.react policy' event := by
  refine (react_eq_iff past).2 ?_
  cases event <;> simp only [sizeRead?, same]

end Peer

namespace Registry

variable {a : Address} {h : Handle} {r r' : Registry} {policy policy' : LinkPolicy} {event : PeerEvent}

/-- What an event does at an address is decided by the peer there. -/
theorem advance_alike (same : r.get? a = r'.get? a)
    (next : ∀ p, r.get? a = some p → p.react policy event = p.react policy' event) :
    (r.advance policy a event).1 = (r'.advance policy' a event).1 ∧
      (r.advance policy a event).2.get? a = (r'.advance policy' a event).2.get? a := by
  have policies : r.advance policy a event = r.advance policy' a event := by
    cases here : r.get? a with
    | none => simp only [advance, here]
    | some p => simp only [advance, here, Peer.apply, next p here]
  rw [policies]
  rcases react_cases policy' event (r.get? a) with refused | ⟨p, q, actions, here, next, moved⟩ |
    ⟨p, q, before, here, next, ended, phase, address, handle⟩
  · rw [advance_of_refused refused, advance_of_refused (same ▸ refused)]
    exact ⟨rfl, same⟩
  · rw [advance_of_proceeds here next moved, advance_of_proceeds (same ▸ here) next moved]
    refine ⟨rfl, ?_⟩
    rw [get?_putBack here moved, get?_putBack (same ▸ here) moved, if_pos rfl, if_pos rfl]
  · rw [advance_of_ends here next ended phase address handle,
      advance_of_ends (same ▸ here) next ended phase address handle]
    refine ⟨rfl, ?_⟩
    rw [get?_remove_self, get?_remove_self]

end Registry

/-- What of a world concerns a link. -/
@[ext]
structure Strand (τ : Type) where
  peer : Option Peer
  told : List Report
  asked : List Request
  part : τ
  settings : Settings

def Strand.Past (h : Handle) (s : Strand τ) : Prop :=
  ∀ p, s.peer = some p → Phase.discovering.rank < p.phase.rank ∧ p.handle = some h

namespace World

def strand (part : σ → τ) (a : Address) (h : Handle) (w : World (Recorded σ)) : Strand τ where
  peer := w.central.registry.get? a
  told := w.central.reports.filter (·.address = a)
  asked := w.radio.log.requestsOn h
  part := part w.radio.state
  settings := w.central.settings

variable {R : Radio σ} {part : σ → τ} {a b : Address} {h : Handle} {w w' : World (Recorded σ)}

theorem strand_of_spared (spared : Spared part h w.radio w'.radio)
    (peer : w'.central.registry.get? a = w.central.registry.get? a)
    (told : w'.central.reports.filter (·.address = a) = w.central.reports.filter (·.address = a))
    (asked : w'.radio.log.requestsOn h = w.radio.log.requestsOn h)
    (given : w'.radio.log.issued.count h = w.radio.log.issued.count h)
    (settings : w'.central.settings = w.central.settings) :
    w'.strand part a h = w.strand part a h :=
  Strand.ext peer told asked (spared.part asked given) settings

@[simp] theorem strand_hear (event : Option RadioEvent) :
    (w.hear event).strand part a h = w.strand part a h :=
  Strand.ext rfl rfl (requestsOn_hear h event w) rfl rfl

theorem strand_report (r : Report) (other : r.address ≠ a) :
    (w.report r).strand part a h = w.strand part a h := by
  have told : (w.report r).central.reports.filter (·.address = a) =
      w.central.reports.filter (·.address = a) := by
    simp [report, Central.report, other]
  exact Strand.ext rfl told rfl rfl rfl

theorem strand_scan {f : Scanner → Recorded σ → Scanner × Recorded σ} (scans : Scans f)
    (spared : Spared part h w.radio (w.scan f).radio) : (w.scan f).strand part a h = w.strand part a h := by
  obtain ⟨log, grown, about⟩ := log_scan scans w
  refine strand_of_spared spared rfl rfl ?_ ?_ rfl
  · rw [grown, Log.requestsOn_append, Exchange.AboutScan.requestsOn about, List.append_nil]
  · rw [grown, Log.issued_append, Log.issued_eq_nil fun e he => (about e he).issued?, List.append_nil]

section Others

variable (isolates : R.Isolates h part)

include isolates

theorem strand_ask (request : Request) (other : request.handle? ≠ some h) :
    (w.ask R.recorded request).2.strand part a h = w.strand part a h := by
  have asked : (w.ask R.recorded request).2.radio.log.requestsOn h = w.radio.log.requestsOn h := by
    rw [log_ask, Log.requestsOn_append, Log.requestsOn_asked, if_neg other, List.append_nil]
  exact Strand.ext rfl rfl asked (isolates.other request w.radio.state other) rfl

/-- A step that asks for nothing on the handle shows in what is reported at most. -/
theorem strand_execute {step : Step} (silent : Registry.owed h [step] = []) :
    (w.execute R.recorded b step).2.strand part a h =
      { w.strand part a h with
        told := (w.strand part a h).told ++ (step.said b).filter (·.address = a) } := by
  obtain ⟨log, grown, carried⟩ := carried_execute R b step w
  have asked : (w.execute R.recorded b step).2.radio.log.requestsOn h = w.radio.log.requestsOn h := by
    rw [grown, Log.requestsOn_append, carried.requestsOn, silent, List.append_nil]
  have given : (w.execute R.recorded b step).2.radio.log.issued.count h = w.radio.log.issued.count h := by
    rw [grown, Log.issued_append, carried.issued_eq, List.append_nil]
  have spared := (isolates.keeps w.radio).execute b step (Spared.refl part h w.radio)
  refine Strand.ext ?_ ?_ asked (spared.part asked given) (settings_execute R.recorded b step w)
  · simp only [strand, registry_execute]
  · simp only [strand, reports_execute, List.filter_append]

theorem strand_execute_ne (other : b ≠ a) {step : Step} (silent : Registry.owed h [step] = []) :
    (w.execute R.recorded b step).2.strand part a h = w.strand part a h := by
  have told : (step.said b).filter (fun r => decide (r.address = a)) = [] :=
    List.filter_eq_nil_iff.2 fun r hr => by simpa [(status_said r hr).2] using other
  rw [strand_execute isolates silent, told, List.append_nil]

theorem strand_settle (other : b ≠ a) {held : Option Handle} (runs : w.central.registry.Runs b held)
    (free : held ≠ some h) {steps : List Step} (events : List PeerEvent)
    (silent : Registry.owed h steps = []) :
    (w.settle R.recorded b steps events).strand part a h = w.strand part a h := by
  refine (settle_induction (R := R.recorded) (a := b) (I := fun steps _ v =>
    v.central.registry.Runs b held ∧ Registry.owed h steps = [] ∧ v.strand part a h = w.strand part a h)
    ?execute ?transition ⟨runs, silent, rfl⟩).2.2
  case execute =>
    rintro step steps events v ⟨runs, silent, same⟩
    rw [Registry.owed_cons, List.append_eq_nil_iff] at silent
    refine ⟨?_, silent.2, (strand_execute_ne isolates other silent.1).trans same⟩
    rw [registry_execute]
    exact runs
  case transition =>
    rintro event events v ⟨runs, -, same⟩
    refine ⟨runs.advance, Registry.owed_eq_nil_of_local free (Registry.local_advance runs), ?_⟩
    have peer : (v.transition R.recorded b event).2.central.registry.get? a = v.central.registry.get? a :=
      Registry.get?_advance_ne other.symm
    rw [← same]
    exact Strand.ext peer rfl rfl rfl rfl

omit isolates in
theorem apart_drive (apart : w.central.registry.Apart a h) (b : Address) (event : PeerEvent) :
    (w.drive R.recorded b event).central.registry.Apart a h := by
  rw [drive_eq]
  exact settle_keeps (P := fun r => r.Apart a h) apart.advance fun _ _ _ _ now => now.advance

theorem strand_drive (other : b ≠ a) (apart : w.central.registry.Apart a h) (event : PeerEvent) :
    (w.drive R.recorded b event).strand part a h = w.strand part a h := by
  obtain ⟨held, runs, free⟩ := apart.runs other
  exact strand_settle isolates other runs free [event] rfl

/-- Taking up an attempt of another peer leaves the strand alone, unless it is given the same handle. -/
theorem strand_initiate (apart : w.central.registry.Apart a h) (linked : w.awaitsConnect a = false)
    (once : (w.initiate R.recorded b).radio.log.issued.count h ≤ w.radio.log.issued.count h) :
    (w.initiate R.recorded b).strand part a h = w.strand part a h := by
  cases waits : w.awaitsConnect b with
  | false => rw [initiate_past R.recorded waits]
  | true =>
    have other : b ≠ a := fun same => by simp [same, linked] at waits
    obtain ⟨log, s, grown, outcome⟩ := dial_spec R waits
    have spared := (isolates.keeps w.radio).dialFrom b w.central.settings.routes (.unsupported "connect")
      (Spared.refl part h w.radio)
    change Spared part h w.radio (R.recorded.dial w.central.settings.routes b w.radio).2 at spared
    have asked (answer : Option Handle) (dials : Dials b log answer) :
        s.log.requestsOn h = w.radio.log.requestsOn h := by
      rw [grown, Log.requestsOn_append, dials.requestsOn_eq, List.append_nil]
    rcases outcome with ⟨refusal, dialed, dials⟩ | ⟨p, k, dialed, dials, here, phase, bare⟩
    · rw [initiate_refused R.recorded waits dialed]
      simp only [dialed] at spared
      have given : s.log.issued.count h = w.radio.log.issued.count h := by
        rw [grown, Log.issued_append, dials.issued_eq, Option.toList_none, List.append_nil]
      let refused : World (Recorded σ) := { w with radio := s }
      have called : refused.strand part a h = w.strand part a h :=
        strand_of_spared spared rfl rfl (asked none dials) given rfl
      exact (strand_drive isolates other (w := refused) apart .connectFailed).trans called
    · rw [initiate_accepted R.recorded waits dialed] at once ⊢
      simp only [dialed] at spared
      have peer : (w.central.registry.attach b k).2.get? a = w.central.registry.get? a := by
        rw [Registry.get?_attach here bare phase, if_neg other.symm]
      exact strand_of_spared spared peer rfl (asked _ dials) (Nat.le_antisymm once spared.given) rfl

end Others

/-! ### What is done for its own peer -/

section Past

theorem runs_of_past (past : (w.strand part a h).Past h) : w.central.registry.Runs a (some h) := by
  intro p here
  obtain ⟨rank, holds⟩ := past p here
  exact ⟨fun idle => by simp [idle, Phase.rank] at rank, holds⟩

theorem past_transition (past : (w.strand part a h).Past h) (event : PeerEvent) :
    ((w.transition R.recorded a event).2.strand part a h).Past h := by
  have spec := w.central.registry.advance_spec (w.policy R.recorded) a event
  simp only [transition]
  generalize (w.central.registry.advance (w.policy R.recorded) a event).1 = steps at spec
  generalize (w.central.registry.advance (w.policy R.recorded) a event).2 = after at spec ⊢
  intro s there
  change after.get? a = some s at there
  cases spec with
  | ignored => exact past s there
  | @kept p q actions here moved =>
    rw [Registry.get?_putBack here moved, if_pos rfl] at there
    obtain rfl := Option.some.inj there
    obtain ⟨rank, holds⟩ := past p here
    exact ⟨Nat.lt_of_lt_of_le rank moved.rank, moved.handle_eq.trans holds⟩
  | ended => simp [Registry.get?_remove_self] at there

theorem past_execute (past : (w.strand part a h).Past h) (step : Step) :
    ((w.execute R.recorded a step).2.strand part a h).Past h := by
  intro p here
  change (w.execute R.recorded a step).2.central.registry.get? a = some p at here
  rw [registry_execute] at here
  exact past p here

/-- What is done for its peer leaves a link past the discovery. -/
theorem past_settle (past : (w.strand part a h).Past h) (steps : List Step) (events : List PeerEvent) :
    ((w.settle R.recorded a steps events).strand part a h).Past h :=
  settle_induction (R := R.recorded) (a := a) (I := fun _ _ v => (v.strand part a h).Past h)
    (fun step _ _ _ now => past_execute now step) (fun event _ _ now => past_transition now event) past

end Past

theorem switch_bare {c : Characteristic} (target : c.clientConfiguration? = none) (enable : Bool)
    (v : World σ) (R : Radio σ) :
    v.switch R c enable (some h) =
      (some (if enable then .enabled c.uuid else .disableSettled c.uuid),
        (v.ask R (.setNotify h c.uuid enable)).2) := by
  simp only [switch, Subscription.set, target]
  rfl

theorem switch_written {c : Characteristic} {d : Descriptor} (target : c.clientConfiguration? = some d)
    (enable : Bool) (v : World σ) (R : Radio σ) :
    v.switch R c enable (some h) =
      let written := (v.ask R (.setNotify h c.uuid enable)).2.ask R
        (.writeDescriptor h d (Subscription.value enable))
      (Subscription.event? c enable (if written.1 then .pending else .refused), written.2) := by
  simp only [switch, Subscription.set, target]
  rfl

section Own

variable {v : World (Recorded σ)} (isolates : R.Isolates h part)
  (same : w.strand part a h = v.strand part a h)

include isolates same

theorem ask_own (request : Request) (named : request.handle? = some h) :
    (w.ask R.recorded request).1 = (v.ask R.recorded request).1 ∧
      (w.ask R.recorded request).2.strand part a h = (v.ask R.recorded request).2.strand part a h := by
  obtain ⟨peer, told, asked, alike, settings⟩ := Strand.mk.inj same
  obtain ⟨answer, after⟩ := isolates.own request _ _ named alike
  refine ⟨answer, Strand.ext peer told ?_ after settings⟩
  simp only [strand, log_ask, Log.requestsOn_append, Log.requestsOn_asked, asked]

theorem switch_own (c : Characteristic) (enable : Bool) :
    (w.switch R.recorded c enable (some h)).1 = (v.switch R.recorded c enable (some h)).1 ∧
      (w.switch R.recorded c enable (some h)).2.strand part a h =
        (v.switch R.recorded c enable (some h)).2.strand part a h := by
  obtain ⟨-, told⟩ := ask_own isolates same (.setNotify h c.uuid enable) rfl
  cases target : c.clientConfiguration? with
  | none =>
    simp only [switch_bare target]
    exact ⟨trivial, told⟩
  | some d =>
    obtain ⟨answer, written⟩ := ask_own isolates told
      (.writeDescriptor h d (Subscription.value enable)) rfl
    simp only [switch_written target, answer]
    exact ⟨trivial, written⟩

/-- A step on the handle goes alike wherever the strand is the same. -/
theorem execute_own {step : Step} (near : step.Local (some h)) :
    (w.execute R.recorded a step).1 = (v.execute R.recorded a step).1 ∧
      (w.execute R.recorded a step).2.strand part a h = (v.execute R.recorded a step).2.strand part a h := by
  have silent (step : Step) (owed : Registry.owed h [step] = []) :
      (w.execute R.recorded a step).2.strand part a h = (v.execute R.recorded a step).2.strand part a h := by
    rw [strand_execute isolates owed, strand_execute isolates owed, same]
  cases step with
  | release k =>
    obtain rfl := Option.some.inj near
    exact ⟨rfl, (ask_own isolates same (.release h) rfl).2⟩
  | run action handle =>
    obtain ⟨rfl, unpaused, undialed⟩ := near
    cases action with
    | pauseScanning => exact absurd rfl unpaused
    | connect => exact absurd rfl undialed
    | resumeScanning | release | forget | reportConnected | reportDisconnected => exact ⟨rfl, silent _ rfl⟩
    | discoverServices =>
      obtain ⟨answer, after⟩ := ask_own isolates same (.discover h) rfl
      exact ⟨congrArg (if · then none else some PeerEvent.discoveryRefused) answer, after⟩
    | requestUnitSize size =>
      obtain ⟨answer, after⟩ := ask_own isolates same (.requestUnitSize h size) rfl
      exact ⟨congrArg (if · then none else some PeerEvent.negotiationUnavailable) answer, after⟩
    | invalidateCache => exact ⟨rfl, (ask_own isolates same (.invalidateCache h) rfl).2⟩
    | disconnect => exact ⟨rfl, (ask_own isolates same (.disconnect h) rfl).2⟩
    | subscribe c => exact switch_own isolates same c true
    | unsubscribe c => exact switch_own isolates same c false

/-- An event is answered alike wherever the strand is the same: the policies may differ, but not in the
unit size, and past the discovery nothing else of them is read. -/
theorem transition_own (past : (w.strand part a h).Past h) (event : PeerEvent) :
    (w.transition R.recorded a event).1 = (v.transition R.recorded a event).1 ∧
      (w.transition R.recorded a event).2.strand part a h =
        (v.transition R.recorded a event).2.strand part a h := by
  obtain ⟨peer, told, asked, alike, settings⟩ := Strand.mk.inj same
  have unitSize : (w.policy R.recorded).unitSize = (v.policy R.recorded).unitSize := by
    have negotiates : R.recorded.negotiates w.radio = R.recorded.negotiates v.radio :=
      isolates.negotiates _ _ alike
    simp only [policy, settings, negotiates]
  obtain ⟨steps, view⟩ := Registry.advance_alike peer fun p here =>
    Peer.react_of_unitSize event unitSize (Phase.ne_of_rank_lt (past p here).1).symm
  exact ⟨steps, Strand.ext view told asked alike settings⟩

/-- Settling a peer goes alike wherever its strand is the same: the steps are the same and the answers to
them, hence the events they call for. -/
theorem settle_own (past : (w.strand part a h).Past h) {steps : List Step} (events : List PeerEvent)
    (near : ∀ step ∈ steps, step.Local (some h)) :
    (w.settle R.recorded a steps events).strand part a h =
      (v.settle R.recorded a steps events).strand part a h := by
  fun_induction settle R.recorded a steps events w generalizing v with
  | case1 events w step steps r =>
    rename_i ih
    obtain ⟨first, rest⟩ := List.forall_mem_cons.1 near
    obtain ⟨event, after⟩ := execute_own isolates same first
    rw [settle, ← event]
    exact ih after (past_execute past step) rest
  | case2 w event events r =>
    rename_i ih
    obtain ⟨steps, after⟩ := transition_own isolates same past event
    rw [settle, ← steps]
    exact ih after (past_transition past event) (Registry.local_advance (runs_of_past past))
  | case3 w =>
    rw [settle]
    exact same

theorem drive_own (past : (w.strand part a h).Past h) (event : PeerEvent) :
    (w.drive R.recorded a event).strand part a h = (v.drive R.recorded a event).strand part a h :=
  settle_own isolates same past [event] (by simp)

end Own

end World

end RadioCentral
