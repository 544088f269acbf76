import RadioCentral.Proofs.Run.Recorder

/-!
What carrying out the steps of a transition puts into the record, and which event it calls for.
-/
namespace RadioCentral

open Registry (Step)

def PeerEvent.isFollowUp : PeerEvent → Bool
  | .connectFailed | .discoveryRefused | .enabled _ | .enableFailed _ | .negotiationUnavailable
  | .disableSettled _ | .disableRefused => true
  | .connectRequested | .linkUp | .linkDown | .servicesDiscovered _ | .unitSizeReported _
  | .disconnectRequested => false

def Action.onLink : Action → Bool
  | .discoverServices | .subscribe _ | .unsubscribe _ | .requestUnitSize _ | .invalidateCache
  | .disconnect => true
  | .pauseScanning | .resumeScanning | .connect | .release | .forget | .reportConnected _
  | .reportDisconnected => false

def Exchange.AboutScan (e : Exchange) : Prop :=
  ∃ request answer, e = .asked request answer ∧ request.handle? = none

theorem Exchange.aboutScan_asked {request : Request} (answer : Bool) (h : request.handle? = none) :
    (asked request answer).AboutScan := ⟨request, answer, rfl, h⟩

inductive Asks (h : Handle) : Action → Request → Option PeerEvent → Prop where
  | discover : Asks h .discoverServices (.discover h) (some .discoveryRefused)
  | unitSize {size : UInt16} :
      Asks h (.requestUnitSize size) (.requestUnitSize h size) (some .negotiationUnavailable)
  | invalidateCache : Asks h .invalidateCache (.invalidateCache h) none
  | disconnect : Asks h .disconnect (.disconnect h) none

inductive Switched (h : Handle) (c : Characteristic) (enable : Bool) :
    Log → Option PeerEvent → Prop where
  | bare {b : Bool} (without : c.clientConfiguration? = none) :
      Switched h c enable [.asked (.setNotify h c.uuid enable) b]
        (some (if enable then .enabled c.uuid else .disableSettled c.uuid))
  | written {b : Bool} {d : Descriptor} (target : c.clientConfiguration? = some d) :
      Switched h c enable [.asked (.setNotify h c.uuid enable) b,
        .asked (.writeDescriptor h d (Subscription.value enable)) true] none
  | refused {b : Bool} {d : Descriptor} (target : c.clientConfiguration? = some d) :
      Switched h c enable [.asked (.setNotify h c.uuid enable) b,
        .asked (.writeDescriptor h d (Subscription.value enable)) false]
        (some (if enable then .enableFailed c.uuid else .disableRefused))

/-- What a step puts into the record, and the event it calls for. -/
inductive Carried : Step → Log → Option PeerEvent → Prop where
  | released {h : Handle} {b : Bool} : Carried (.release h) [.asked (.release h) b] none
  | scan {action : Action} {handle : Option Handle} {log : Log}
      (what : action = .pauseScanning ∨ action = .resumeScanning) (about : ∀ e ∈ log, e.AboutScan) :
      Carried (.run action handle) log none
  | queued {handle : Option Handle} : Carried (.run .connect handle) [] none
  | unqueued {handle : Option Handle} : Carried (.run .connect handle) [] (some .connectFailed)
  | asked {h : Handle} {action : Action} {request : Request} {refusal : Option PeerEvent}
      (asks : Asks h action request refusal) (answer : Bool) :
      Carried (.run action (some h)) [.asked request answer] (if answer then none else refusal)
  | subscribed {h : Handle} {c : Characteristic} {log : Log} {event : Option PeerEvent}
      (switched : Switched h c true log event) : Carried (.run (.subscribe c) (some h)) log event
  | unsubscribed {h : Handle} {c : Characteristic} {log : Log} {event : Option PeerEvent}
      (switched : Switched h c false log event) : Carried (.run (.unsubscribe c) (some h)) log event
  | silent {action : Action} {handle : Option Handle}
      (what : (∃ size, action = .reportConnected size) ∨
        action ∈ [.reportDisconnected, .release, .forget]) : Carried (.run action handle) [] none
  | unlinked {action : Action} {event : Option PeerEvent} (link : action.onLink = true)
      (followUp : ∀ e ∈ event, e.isFollowUp = true) : Carried (.run action none) [] event

variable {σ : Type}

namespace World

def Scans (f : Scanner → Recorded σ → Scanner × Recorded σ) : Prop :=
  ∀ c s, ∃ log : Log, (f c s).2.log = s.log ++ log ∧ ∀ e ∈ log, e.AboutScan

theorem scans_halt (R : Radio σ) : Scans (Scanner.halt R.recorded) := by
  intro c s
  unfold Scanner.halt
  split
  · exact ⟨_, rfl, List.forall_mem_singleton.2 (Exchange.aboutScan_asked _ rfl)⟩
  · exact ⟨[], by simp, by simp⟩

theorem scans_activate (R : Radio σ) : Scans (Scanner.activate R.recorded) := by
  intro c s
  unfold Scanner.activate
  split
  · exact ⟨[], by simp, by simp⟩
  · exact ⟨_, rfl, List.forall_mem_singleton.2 (Exchange.aboutScan_asked _ rfl)⟩

theorem scans_start (R : Radio σ) : Scans (Scanner.start R.recorded) := fun c s =>
  scans_activate R { c with requested := true } s

theorem scans_stop (R : Radio σ) : Scans (Scanner.stop R.recorded) := fun c s =>
  scans_halt R { c with requested := false } s

theorem scans_resume (R : Radio σ) : Scans (Scanner.resume R.recorded) := by
  intro c s
  unfold Scanner.resume
  split
  · exact scans_activate R c s
  · exact ⟨[], by simp, by simp⟩

theorem log_scan {f : Scanner → Recorded σ → Scanner × Recorded σ} (hf : Scans f)
    (w : World (Recorded σ)) :
    ∃ log : Log, (w.scan f).radio.log = w.radio.log ++ log ∧ ∀ e ∈ log, e.AboutScan :=
  hf w.central.scanner w.radio

theorem log_ask (R : Radio σ) (request : Request) (w : World (Recorded σ)) :
    (w.ask R.recorded request).2.radio.log =
      w.radio.log ++ [.asked request (w.ask R.recorded request).1] := rfl

theorem switched_switch (R : Radio σ) (h : Handle) (c : Characteristic) (enable : Bool)
    (w : World (Recorded σ)) :
    ∃ log : Log, (w.switch R.recorded c enable (some h)).2.radio.log = w.radio.log ++ log ∧
      Switched h c enable log (w.switch R.recorded c enable (some h)).1 := by
  unfold switch Subscription.set
  cases found : c.clientConfiguration? with
  | none => exact ⟨_, rfl, .bare found⟩
  | some d =>
    have two : ∀ (l : Log) x y, (l ++ [x]) ++ [y] = l ++ [x, y] := fun l x y => by simp
    cases answer : (R.ask (.writeDescriptor h d (Subscription.value enable))
      (R.ask (.setNotify h c.uuid enable) w.radio.state).2).1 with
    | true =>
      refine ⟨_, two _ _ _, ?_⟩
      simp only [Radio.recorded, answer, ↓reduceIte]
      exact .written found
    | false =>
      refine ⟨_, two _ _ _, ?_⟩
      simp only [Radio.recorded, answer]
      exact .refused found

theorem carried_asked (R : Radio σ) {h : Handle} {action : Action} {request : Request}
    {refusal : Option PeerEvent} (asks : Asks h action request refusal) (w : World (Recorded σ)) :
    Carried (.run action (some h)) [.asked request (w.ask R.recorded request).1]
      (if (w.ask R.recorded request).1 then none else refusal) :=
  .asked asks _

/-- The record of a step, for every radio. -/
theorem carried_execute (R : Radio σ) (a : Address) (step : Step) (w : World (Recorded σ)) :
    ∃ log : Log, (w.execute R.recorded a step).2.radio.log = w.radio.log ++ log ∧
      Carried step log (w.execute R.recorded a step).1 := by
  cases step with
  | release h => exact ⟨_, log_ask R (.release h) w, .released⟩
  | run action handle =>
    have none : w.radio.log = w.radio.log ++ [] := (List.append_nil _).symm
    cases action with
    | pauseScanning =>
      obtain ⟨log, grown, about⟩ := log_scan (scans_halt R) w
      exact ⟨log, grown, .scan (Or.inl rfl) about⟩
    | resumeScanning =>
      unfold execute perform
      simp only
      split
      · obtain ⟨log, grown, about⟩ := log_scan (scans_resume R) w
        exact ⟨log, grown, .scan (Or.inr rfl) about⟩
      · exact ⟨[], none, .scan (Or.inr rfl) (by simp)⟩
    | connect =>
      unfold execute perform Dispatch.send
      simp only
      split
      · exact ⟨[], none, .unqueued⟩
      · exact ⟨[], none, .queued⟩
    | subscribe c =>
      cases handle with
      | none => exact ⟨[], none, .unlinked rfl (by simp [execute, perform, switch, PeerEvent.isFollowUp])⟩
      | some h =>
        obtain ⟨log, grown, switched⟩ := switched_switch R h c true w
        exact ⟨log, grown, .subscribed switched⟩
    | unsubscribe c =>
      cases handle with
      | none => exact ⟨[], none, .unlinked rfl (by simp [execute, perform, switch, PeerEvent.isFollowUp])⟩
      | some h =>
        obtain ⟨log, grown, switched⟩ := switched_switch R h c false w
        exact ⟨log, grown, .unsubscribed switched⟩
    | discoverServices =>
      cases handle with
      | none => exact ⟨[], none, .unlinked rfl (by simp [execute, perform, askOn, PeerEvent.isFollowUp])⟩
      | some h => exact ⟨_, log_ask R _ w, carried_asked R .discover w⟩
    | requestUnitSize size =>
      cases handle with
      | none => exact ⟨[], none, .unlinked rfl (by simp [execute, perform, askOn, PeerEvent.isFollowUp])⟩
      | some h => exact ⟨_, log_ask R _ w, carried_asked R .unitSize w⟩
    | invalidateCache =>
      cases handle with
      | none => exact ⟨[], none, .unlinked rfl (by simp [execute, perform])⟩
      | some h =>
        have carried := carried_asked R (h := h) .invalidateCache w
        rw [ite_self] at carried
        exact ⟨_, log_ask R _ w, carried⟩
    | disconnect =>
      cases handle with
      | none => exact ⟨[], none, .unlinked rfl (by simp [execute, perform])⟩
      | some h =>
        have carried := carried_asked R (h := h) .disconnect w
        rw [ite_self] at carried
        exact ⟨_, log_ask R _ w, carried⟩
    | release | forget => exact ⟨[], none, .silent (Or.inr (by simp))⟩
    | reportConnected size => exact ⟨[], none, .silent (Or.inl ⟨size, rfl⟩)⟩
    | reportDisconnected => exact ⟨[], none, .silent (Or.inr (by simp))⟩

end World

namespace Carried

variable {step : Step} {log : Log} {event : Option PeerEvent}

theorem isFollowUp (h : Carried step log event) : ∀ e ∈ event, e.isFollowUp = true := by
  cases h with
  | asked asks answer => cases asks <;> cases answer <;> simp [PeerEvent.isFollowUp]
  | subscribed switched | unsubscribed switched =>
    cases switched <;> simp [PeerEvent.isFollowUp]
  | unlinked _ followUp => exact followUp
  | unqueued => simp [PeerEvent.isFollowUp]
  | released | scan | queued | silent => simp

end Carried

end RadioCentral
