import Mathlib.Data.List.Induction
import RadioCentral.Backend.Radio
import RadioCentral.Proofs.Run.Settling

/-!
What every answer of a radio keeps holds throughout a run. A radio that numbers its connections
therefore never gives out a handle twice.
-/
namespace RadioCentral

variable {σ : Type}

/-- Every answer of a radio keeps a property of its state. -/
structure Radio.Keeps (R : Radio σ) (P : σ → Prop) : Prop where
  connect : ∀ a route s, P s → P (R.connect a route s).2
  ask : ∀ request s, P s → P (R.ask request s).2

namespace Radio.Keeps

variable {R : Radio σ} {P : σ → Prop}

theorem activate (keeps : R.Keeps P) (c : Scanner) {s : σ} (h : P s) : P (c.activate R s).2 := by
  unfold Scanner.activate
  split
  · exact h
  · exact keeps.ask _ s h

theorem halt (keeps : R.Keeps P) (c : Scanner) {s : σ} (h : P s) : P (c.halt R s).2 := by
  unfold Scanner.halt
  split
  · exact keeps.ask _ s h
  · exact h

theorem dialFrom (keeps : R.Keeps P) (a : Address) (routes : List Route) (error : RadioError) {s : σ}
    (h : P s) : P (R.dialFrom a error routes s).2 := by
  induction routes generalizing error s with
  | nil => exact h
  | cons route routes ih =>
    have next := keeps.connect a route s h
    unfold Radio.dialFrom
    generalize R.connect a route s = result at next ⊢
    obtain ⟨answer, s'⟩ := result
    cases answer with
    | ok => exact next
    | error refusal => exact ih refusal next

theorem askOn (keeps : R.Keeps P) (handle : Option Handle) (request : Handle → Request) {w : World σ}
    (h : P w.radio) : P (w.askOn R handle request).2.radio := by
  cases handle with
  | none => exact h
  | some k => exact keeps.ask (request k) w.radio h

theorem switch (keeps : R.Keeps P) (c : Characteristic) (enable : Bool) (handle : Option Handle)
    {w : World σ} (h : P w.radio) : P (w.switch R c enable handle).2.radio := by
  cases handle with
  | none => exact h
  | some k =>
    have told := keeps.ask (.setNotify k c.uuid enable) w.radio h
    simp only [World.switch, Subscription.set]
    split
    · exact told
    · exact keeps.ask _ _ told

theorem execute (keeps : R.Keeps P) (a : Address) (step : Registry.Step) {w : World σ}
    (h : P w.radio) : P (w.execute R a step).2.radio := by
  cases step with
  | release k => exact keeps.ask (.release k) w.radio h
  | run action handle =>
    cases action with
    | pauseScanning => exact keeps.halt _ h
    | resumeScanning =>
      simp only [World.execute, World.perform, World.scan, Scanner.resume]
      split
      · split
        · exact keeps.activate _ h
        · exact h
      · exact h
    | discoverServices | requestUnitSize | invalidateCache | disconnect => exact keeps.askOn handle _ h
    | subscribe c | unsubscribe c => exact keeps.switch c _ handle h
    | connect | release | forget | reportConnected | reportDisconnected => exact h

theorem settle (keeps : R.Keeps P) (a : Address) (steps : List Registry.Step) (events : List PeerEvent)
    {w : World σ} (h : P w.radio) : P (w.settle R a steps events).radio :=
  World.settle_induction (I := fun _ _ w => P w.radio)
    (fun step _ _ _ now => keeps.execute a step now) (fun _ _ _ now => now) h

theorem handOver (keeps : R.Keeps P) (a : Address) (k : Handle) {w : World σ} (h : P w.radio) :
    P (w.handOver R a k).radio := by
  unfold World.handOver
  simp only
  split
  · exact h
  · exact keeps.ask (.release k) _ (keeps.ask (.disconnect k) _ h)

theorem initiate (keeps : R.Keeps P) (a : Address) {w : World σ} (h : P w.radio) :
    P (w.initiate R a).radio := by
  have next := keeps.dialFrom a w.central.settings.routes (.unsupported "connect") h
  change P (R.dial w.central.settings.routes a w.radio).2 at next
  unfold World.initiate
  split
  · generalize R.dial w.central.settings.routes a w.radio = result at next ⊢
    obtain ⟨answer, s'⟩ := result
    cases answer with
    | ok k => exact keeps.handOver a k next
    | error => exact keeps.settle a _ _ next
  · exact h

theorem onHandle (keeps : R.Keeps P) (k : Handle) (event : PeerEvent) {w : World σ} (h : P w.radio) :
    P (w.onHandle R k event).radio := by
  unfold World.onHandle
  split
  · exact keeps.settle _ _ _ h
  · exact h

theorem onRadioEvent (keeps : R.Keeps P) (event : RadioEvent) {w : World σ} (h : P w.radio) :
    P (w.onRadioEvent R event).radio := by
  cases event with
  | advertisement a data =>
    simp only [World.onRadioEvent, World.onAdvertisement]
    split
    · exact keeps.settle a _ _ h
    · exact h
  | connected | disconnected | servicesDiscovered | unitSizeChanged => exact keeps.onHandle _ _ h
  | descriptorWritten =>
    simp only [World.onRadioEvent]
    split
    · exact keeps.onHandle _ _ h
    · exact h
  | characteristicChanged =>
    simp only [World.onRadioEvent, World.onValue]
    (repeat' split) <;> exact h
  | characteristicWritten =>
    simp only [World.onRadioEvent, World.onWritten]
    split <;> exact h

theorem write (keeps : R.Keeps P) (data : Bytes) (c : Uuid) (a : Address) {w : World σ}
    (h : P w.radio) : P (w.write R data c a).2.radio := by
  simp only [World.write]
  (repeat' split) <;> first
    | exact h
    | exact keeps.ask _ _ h

theorem stop (keeps : R.Keeps P) (order : Registry.Order) {w : World σ} (h : P w.radio) :
    P (w.stop R order).radio := by
  have halted : P (w.scan (Scanner.stop R)).radio := keeps.halt _ h
  simp only [World.stop]
  generalize (w.scan (Scanner.stop R)).central.registry.addresses order = addresses
  generalize w.scan (Scanner.stop R) = w' at halted ⊢
  induction addresses generalizing w' with
  | nil => exact halted
  | cons a addresses ih =>
    rw [List.foldl_cons]
    exact ih _ (keeps.settle a _ _ halted)

theorem reset (keeps : R.Keeps P) (order : Registry.Order) {w : World σ} (h : P w.radio) :
    P (w.reset R order).radio := by
  have all : ∀ (handles : List Handle) (v : World σ), P v.radio →
      P (handles.foldl (fun w k => (w.ask R (.release k)).2) v).radio := by
    intro handles
    induction handles with
    | nil => exact fun _ now => now
    | cons k handles ih => exact fun v now => ih _ (keeps.ask (.release k) v.radio now)
  exact all _ _ h

/-- Operations reach the radio only by asking it. -/
theorem step (keeps : R.Keeps P) (o : Operation) {w : World σ} (h : P w.radio) : P (w.step R o).radio := by
  cases o with
  | start => exact keeps.activate _ h
  | stop order => exact keeps.stop order h
  | reset order => exact keeps.reset order h
  | disconnect a => exact keeps.settle a _ _ h
  | write data c a => exact keeps.write data c a h
  | radioEvent event => exact keeps.onRadioEvent event h
  | initiate a => exact keeps.initiate a h
  | dispatchNext =>
    simp only [World.step, World.dispatchNext, World.takeAttempt]
    cases w.central.dispatch.queue with
    | nil => exact h
    | cons a queue => exact keeps.initiate a h
  | registerNotify | setNonce | setGovernor | claimDispatch | dropDispatch => exact h

end Radio.Keeps

/-- A radio that numbers its connections: `next` is above all numbers given out. -/
structure Radio.Numbers (R : Radio σ) (next : σ → Nat) : Prop where
  accepted : ∀ a route s h, (R.connect a route s).1 = .ok h →
    next s ≤ h.id ∧ h.id < next (R.connect a route s).2
  connect : ∀ a route s, next s ≤ next (R.connect a route s).2
  ask : ∀ request s, next s ≤ next (R.ask request s).2

/-- The handles given out are numbered in ascending order and below the next number. -/
structure Numbered (next : σ → Nat) (r : Recorded σ) : Prop where
  ascending : r.log.issued.Pairwise fun h k => h.id < k.id
  below : ∀ h ∈ r.log.issued, h.id < next r.state

namespace Numbered

variable {next : σ → Nat} {r r' : Recorded σ}

theorem later (numbered : Numbered next r) (same : r'.log.issued = r.log.issued)
    (forward : next r.state ≤ next r'.state) : Numbered next r' := by
  constructor
  case ascending =>
    rw [same]
    exact numbered.ascending
  case below =>
    intro h issued
    rw [same] at issued
    exact Nat.lt_of_lt_of_le (numbered.below h issued) forward

theorem accepted {h : Handle} (numbered : Numbered next r) (grown : r'.log.issued = r.log.issued ++ [h])
    (above : next r.state ≤ h.id) (below : h.id < next r'.state) : Numbered next r' := by
  constructor
  case ascending =>
    rw [grown, List.pairwise_append]
    refine ⟨numbered.ascending, List.pairwise_singleton _ _, fun k old new mem => ?_⟩
    obtain rfl := List.mem_singleton.1 mem
    exact Nat.lt_of_lt_of_le (numbered.below k old) above
  case below =>
    intro k issued
    rw [grown] at issued
    rcases List.mem_append.1 issued with old | new
    · have earlier := numbered.below k old
      omega
    · obtain rfl := List.mem_singleton.1 new
      exact below

end Numbered

theorem Radio.Numbers.recorded {R : Radio σ} {next : σ → Nat} (numbers : R.Numbers next) :
    R.recorded.Keeps (Numbered next) := by
  constructor
  case connect =>
    intro a route r numbered
    cases answer : (R.connect a route r.state).1 with
    | ok h =>
      obtain ⟨above, below⟩ := numbers.accepted a route r.state h answer
      refine numbered.accepted ?_ above below
      simp [Radio.recorded, answer, Log.issued_dialed, Except.toOption]
    | error refusal =>
      refine numbered.later ?_ (numbers.connect a route r.state)
      simp [Radio.recorded, answer, Log.issued_dialed, Except.toOption]
  case ask =>
    intro request r numbered
    refine numbered.later ?_ (numbers.ask request r.state)
    simp [Radio.recorded, Log.issued_asked]

namespace World

/-- A radio that numbers its connections never gives out a handle twice, whatever happens to it that
does not take its numbers back. -/
theorem issued_nodup {R : Radio σ} {next : σ → Nat} (numbers : R.Numbers next) (settings : Settings)
    (s : σ) (history : List (Happening σ))
    (forward : ∀ change, .radioChanges change ∈ history → ∀ s, next s ≤ next (change s)) :
    (outcome R settings s history).radio.log.issued.Nodup := by
  have all : Numbered next (outcome R settings s history).radio := by
    induction history using List.reverseRecOn with
    | nil => exact ⟨List.Pairwise.nil, fun _ issued => absurd issued List.not_mem_nil⟩
    | append_singleton history x ih =>
      have numbered := ih fun change mem => forward change (List.mem_append_left [x] mem)
      rw [outcome_concat]
      cases x with
      | operation o =>
        exact numbers.recorded.step o (numbered.later (issued_hear o.event? _) (Nat.le_refl _))
      | radioChanges change =>
        have mem : .radioChanges change ∈ history ++ [.radioChanges change] := by simp
        exact numbered.later rfl (forward change mem _)
  exact all.ascending.imp fun less same => absurd less (by simp [same])

end World

theorem SimulatedRadio.numbers : SimulatedRadio.radio.Numbers SimulatedRadio.nextHandle := by
  constructor
  case accepted =>
    intro a route s h answer
    by_cases accepts : accepts s.flags route = true
    · simp only [radio, record, accepts, ↓reduceIte, Except.ok.injEq] at answer ⊢
      subst answer
      exact ⟨Nat.le_refl _, Nat.lt_succ_self _⟩
    · simp [radio, record, accepts] at answer
  case connect =>
    intro a route s
    by_cases accepts : accepts s.flags route = true <;> simp [radio, record, accepts]
  case ask => exact fun _ _ => Nat.le_refl _

theorem Backend.nextHandle_ask (request : Request) (b : Backend) :
    (b.ask request).2.nextHandle = b.nextHandle := by
  cases request with
  | discover | writeDescriptor | disconnect =>
    simp only [Backend.ask, onLink]
    split <;> rfl
  | write =>
    simp only [Backend.ask, Backend.write]
    (repeat' split) <;> rfl
  | release =>
    simp only [Backend.ask, Backend.release]
    split <;> rfl
  | startScan | stopScan | setNotify | requestUnitSize | invalidateCache => rfl

theorem Backend.numbers : Backend.radio.Numbers Backend.nextHandle := by
  constructor
  case accepted =>
    intro a route b h answer
    cases route with
    | lowEnergy => cases answer
    | standard =>
      by_cases known : a ∈ b.known
      · simp only [radio, dial, known, ↓reduceIte, Except.ok.injEq] at answer ⊢
        subst answer
        exact ⟨Nat.le_refl _, Nat.lt_succ_self _⟩
      · simp [radio, dial, known] at answer
  case connect =>
    intro a route b
    cases route with
    | lowEnergy => exact Nat.le_refl _
    | standard => by_cases known : a ∈ b.known <;> simp [radio, dial, known, spawn]
  case ask => exact fun request b => Nat.le_of_eq (nextHandle_ask request b).symm

end RadioCentral
