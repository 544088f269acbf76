import RadioCentral.Proofs.Run.Recorder

/-!
Keeping a record changes nothing: without it, a recorded run is the run itself.
-/
namespace RadioCentral

variable {σ : Type}

namespace World

def forget (w : World (Recorded σ)) : World σ := ⟨w.central, w.radio.state⟩

def Projects (f : Scanner → Recorded σ → Scanner × Recorded σ) (g : Scanner → σ → Scanner × σ) : Prop :=
  ∀ c s, ((f c s).1, (f c s).2.state) = g c s.state

variable (R : Radio σ) (w : World (Recorded σ))

theorem projects_halt : Projects (Scanner.halt R.recorded) (Scanner.halt R) := by
  intro c s
  unfold Scanner.halt
  split <;> rfl

theorem projects_activate : Projects (Scanner.activate R.recorded) (Scanner.activate R) := by
  intro c s
  unfold Scanner.activate
  split <;> rfl

theorem projects_resume : Projects (Scanner.resume R.recorded) (Scanner.resume R) := by
  intro c s
  unfold Scanner.resume
  split
  · exact projects_activate R c s
  · rfl

theorem forget_scan {f : Scanner → Recorded σ → Scanner × Recorded σ} {g : Scanner → σ → Scanner × σ}
    (projects : Projects f g) : (w.scan f).forget = w.forget.scan g := by
  have same := projects w.central.scanner w.radio
  simp only [scan, forget, ← same]

theorem forget_execute (a : Address) (step : Registry.Step) :
    ((w.execute R.recorded a step).1, (w.execute R.recorded a step).2.forget) =
      w.forget.execute R a step := by
  cases step with
  | release h => rfl
  | run action handle =>
    cases action with
    | pauseScanning => exact congrArg (Prod.mk none) (forget_scan w (projects_halt R))
    | resumeScanning =>
      have resumed := forget_scan w (projects_resume R)
      by_cases clear : w.central.registry.connecting.isEmpty
      · simp only [execute, perform, clear, ↓reduceIte, resumed]
        exact (congrArg (Prod.mk none) (if_pos clear)).symm
      · simp only [execute, perform, clear, Bool.false_eq_true, ↓reduceIte]
        exact (congrArg (Prod.mk none) (if_neg clear)).symm
    | connect => rfl
    | discoverServices | invalidateCache | disconnect | requestUnitSize => cases handle <;> rfl
    | subscribe c | unsubscribe c =>
      cases handle with
      | none => rfl
      | some h =>
        simp only [execute, perform, switch, Subscription.set]
        cases c.clientConfiguration? <;> rfl
    | release | forget | reportConnected | reportDisconnected => rfl

theorem forget_transition (a : Address) (event : PeerEvent) :
    ((w.transition R.recorded a event).1, (w.transition R.recorded a event).2.forget) =
      w.forget.transition R a event := rfl

theorem forget_settle (a : Address) (steps : List Registry.Step) (events : List PeerEvent) :
    (w.settle R.recorded a steps events).forget = w.forget.settle R a steps events := by
  fun_induction settle R.recorded a steps events w with
  | case1 events w step steps r ih =>
    have same := forget_execute R w a step
    rw [settle, ← same]
    exact ih
  | case2 w event events r ih =>
    rw [settle, ← forget_transition]
    exact ih
  | case3 w => rw [settle]

theorem forget_drive (a : Address) (event : PeerEvent) :
    (w.drive R.recorded a event).forget = w.forget.drive R a event :=
  forget_settle R w a [] [event]

theorem forget_dialFrom (routes : List Route) (a : Address) (error : RadioError) (s : Recorded σ) :
    ((R.recorded.dialFrom a error routes s).1, (R.recorded.dialFrom a error routes s).2.state) =
      R.dialFrom a error routes s.state := by
  induction routes generalizing error s with
  | nil => rfl
  | cons route routes ih =>
    have same : ((R.recorded.connect a route s).1, (R.recorded.connect a route s).2.state) =
        R.connect a route s.state := rfl
    unfold Radio.dialFrom
    rw [← same]
    generalize R.recorded.connect a route s = result
    obtain ⟨answer, s'⟩ := result
    cases answer with
    | ok h => rfl
    | error refusal => exact ih refusal s'

theorem forget_handOver (a : Address) (h : Handle) :
    (w.handOver R.recorded a h).forget = w.forget.handOver R a h := by
  have registry : w.forget.central.registry = w.central.registry := rfl
  simp only [handOver, registry]
  split <;> rfl

theorem forget_initiate (a : Address) :
    (w.initiate R.recorded a).forget = w.forget.initiate R a := by
  have waits : w.forget.awaitsConnect a = w.awaitsConnect a := rfl
  have same := forget_dialFrom R w.central.settings.routes a (.unsupported "connect") w.radio
  unfold initiate
  rw [waits]
  split
  · change ((R.recorded.dial w.central.settings.routes a w.radio).1,
      (R.recorded.dial w.central.settings.routes a w.radio).2.state) =
        R.dial w.forget.central.settings.routes a w.forget.radio at same
    rw [← same]
    generalize R.recorded.dial w.central.settings.routes a w.radio = result
    obtain ⟨answer, s'⟩ := result
    cases answer with
    | ok h => exact forget_handOver R { w with radio := s' } a h
    | error refusal => exact forget_drive R { w with radio := s' } a .connectFailed
  · rfl

theorem forget_onHandle (h : Handle) (event : PeerEvent) :
    (w.onHandle R.recorded h event).forget = w.forget.onHandle R h event := by
  have registry : w.forget.central.registry = w.central.registry := rfl
  unfold onHandle
  rw [registry]
  split
  · exact forget_drive R w _ event
  · rfl

theorem forget_onRadioEvent (event : RadioEvent) :
    (w.onRadioEvent R.recorded event).forget = w.forget.onRadioEvent R event := by
  cases event with
  | advertisement a data =>
    have admits : w.forget.admits a data = w.admits a data := rfl
    simp only [onRadioEvent, onAdvertisement, admits]
    split
    · exact forget_settle R _ a _ []
    · rfl
  | connected | disconnected | servicesDiscovered | unitSizeChanged => exact forget_onHandle R w _ _
  | descriptorWritten h c value success =>
    simp only [onRadioEvent]
    split
    · exact forget_onHandle R w h _
    · rfl
  | characteristicChanged h c value =>
    have registry : w.forget.central.registry = w.central.registry := rfl
    simp only [onRadioEvent, onValue, registry]
    (repeat' split) <;> rfl
  | characteristicWritten h c value status =>
    have registry : w.forget.central.registry = w.central.registry := rfl
    simp only [onRadioEvent, onWritten, registry]
    split <;> rfl

theorem forget_write (data : Bytes) (c : Uuid) (a : Address) :
    (w.write R.recorded data c a).2.forget = (w.forget.write R data c a).2 := by
  have registry : w.forget.central.registry = w.central.registry := rfl
  simp only [write, registry]
  (repeat' split) <;> rfl

theorem forget_stop (order : Registry.Order) :
    (w.stop R.recorded order).forget = w.forget.stop R order := by
  have scanned : (w.scan (Scanner.stop R.recorded)).forget = w.forget.scan (Scanner.stop R) :=
    forget_scan w fun c s => projects_halt R { c with requested := false } s
  have all : ∀ (addresses : List Address) (v : World (Recorded σ)),
      (addresses.foldl (fun w a => w.disconnect R.recorded a) v).forget =
        addresses.foldl (fun w a => w.disconnect R a) v.forget := by
    intro addresses
    induction addresses with
    | nil => exact fun v => rfl
    | cons a addresses ih =>
      intro v
      have first : (v.disconnect R.recorded a).forget = v.forget.disconnect R a :=
        forget_drive R v a .disconnectRequested
      rw [List.foldl_cons, ih, List.foldl_cons, first]
  simp only [stop, all, scanned]
  rfl

theorem forget_reset (order : Registry.Order) :
    (w.reset R.recorded order).forget = w.forget.reset R order := by
  have all : ∀ (handles : List Handle) (v : World (Recorded σ)),
      (handles.foldl (fun w h => (w.ask R.recorded (.release h)).2) v).forget =
        handles.foldl (fun w h => (w.ask R (.release h)).2) v.forget := by
    intro handles
    induction handles with
    | nil => exact fun v => rfl
    | cons h handles ih => exact fun v => ih _
  exact all _ _

theorem forget_step (o : Operation) : (w.step R.recorded o).forget = w.forget.step R o := by
  cases o with
  | start => exact forget_scan w fun c s => projects_activate R { c with requested := true } s
  | stop order => exact forget_stop R w order
  | reset order => exact forget_reset R w order
  | disconnect a => exact forget_drive R w a .disconnectRequested
  | write data c a => exact forget_write R w data c a
  | radioEvent event => exact forget_onRadioEvent R w event
  | initiate a => exact forget_initiate R w a
  | dispatchNext =>
    have queue : w.forget.central.dispatch.queue = w.central.dispatch.queue := rfl
    simp only [step, dispatchNext, takeAttempt, queue]
    cases w.central.dispatch.queue with
    | nil => rfl
    | cons a rest => exact forget_initiate R _ a
  | registerNotify | setNonce | setGovernor | claimDispatch | dropDispatch => rfl

/-- A recorded run of operations is the run of the operations. -/
theorem forget_outcome (settings : Settings) (s : σ) (operations : List Operation) :
    (outcome R settings s (operations.map .operation)).forget =
      run R operations ⟨Central.ofSettings settings, s⟩ := by
  have all : ∀ v : World (Recorded σ),
      ((operations.map .operation).foldl (happen R) v).forget = run R operations v.forget := by
    induction operations with
    | nil => exact fun v => rfl
    | cons o operations ih =>
      intro v
      rw [List.map_cons, List.foldl_cons, ih]
      exact congrArg (run R operations) (forget_step R (v.hear o.event?) o)
  exact all (fresh settings s)

end World

end RadioCentral
