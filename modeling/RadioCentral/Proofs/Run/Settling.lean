import RadioCentral.Proofs.Run.Carrying

/-!
Induction over the settling of a peer: what steps and transitions preserve holds when neither is left.
-/
namespace RadioCentral.World

open Registry (Step)

variable {σ : Type}

theorem settle_induction {R : Radio σ} {a : Address} {I : List Step → List PeerEvent → World σ → Prop}
    (execute : ∀ step steps events w, I (step :: steps) events w →
      I steps (events ++ (w.execute R a step).1.toList) (w.execute R a step).2)
    (transition : ∀ event events w, I [] (event :: events) w →
      I (w.transition R a event).1 events (w.transition R a event).2)
    {steps : List Step} {events : List PeerEvent} {w : World σ} (h : I steps events w) :
    I [] [] (w.settle R a steps events) := by
  fun_induction settle R a steps events w with
  | case1 events w step steps r ih => exact ih (execute step steps events w h)
  | case2 w event events r ih => exact ih (transition event events w h)
  | case3 => exact h

/-- Driving a peer is its first transition and the settling of what that leaves to be done. -/
theorem drive_eq (R : Radio σ) (a : Address) (event : PeerEvent) (w : World σ) :
    w.drive R a event =
      (w.transition R a event).2.settle R a (w.transition R a event).1 [] := by
  rw [drive, settle]

/-- The last steps of a connection: its end is reported and the scan may go on. -/
theorem settle_left (R : Radio σ) (a : Address) (handle : Option Handle) (v : World σ) :
    v.settle R a [.run .reportDisconnected handle, .run .resumeScanning handle] [] =
      if v.central.registry.connecting = [] then (v.report (.disconnected a)).scan (Scanner.resume R)
      else v.report (.disconnected a) := by
  rw [settle, settle]
  show settle R a [] [] (if v.central.registry.connecting.isEmpty then
    (v.report (.disconnected a)).scan (Scanner.resume R) else v.report (.disconnected a)) = _
  rw [settle]
  simp only [List.isEmpty_iff]

/-- While a peer settles after its first transition, every further event is a follow-up. -/
theorem settle_recorded {R : Radio σ} {a : Address}
    {I : List Step → List PeerEvent → World (Recorded σ) → Prop}
    (execute : ∀ step steps events w log event, I (step :: steps) events w →
      (w.execute R.recorded a step).2.radio.log = w.radio.log ++ log → Carried step log event →
      event = (w.execute R.recorded a step).1 →
      I steps (events ++ event.toList) (w.execute R.recorded a step).2)
    (transition : ∀ event events w, event.isFollowUp = true → I [] (event :: events) w →
      I (w.transition R.recorded a event).1 events (w.transition R.recorded a event).2)
    {steps : List Step} {w : World (Recorded σ)} (h : I steps [] w) :
    I [] [] (w.settle R.recorded a steps []) := by
  have both : I [] [] (w.settle R.recorded a steps []) ∧
      ∀ e ∈ ([] : List PeerEvent), e.isFollowUp = true := by
    refine settle_induction (I := fun steps events w =>
      I steps events w ∧ ∀ e ∈ events, e.isFollowUp = true) ?_ ?_ ⟨h, by simp⟩
    · rintro step steps events w ⟨now, followUps⟩
      obtain ⟨log, grown, carried⟩ := carried_execute R a step w
      refine ⟨execute step steps events w log _ now grown carried rfl, fun e he => ?_⟩
      rcases List.mem_append.1 he with he | he
      · exact followUps e he
      · exact carried.isFollowUp e (by simpa using he)
    · rintro event events w ⟨now, followUps⟩
      exact ⟨transition event events w (followUps event List.mem_cons_self) now,
        fun e he => followUps e (List.mem_cons_of_mem _ he)⟩
  exact both.1

/-- Settling only adds to the record. -/
theorem log_settle (R : Radio σ) (a : Address) (steps : List Step) (w : World (Recorded σ)) :
    w.radio.log <+: (w.settle R.recorded a steps []).radio.log :=
  settle_recorded (I := fun _ _ w' => w.radio.log <+: w'.radio.log)
    (fun _ _ _ _ _ _ now grown _ _ => now.trans (grown ▸ List.prefix_append _ _))
    (fun _ _ _ _ now => now) (List.prefix_refl _)

theorem log_drive (R : Radio σ) (a : Address) (event : PeerEvent) (w : World (Recorded σ)) :
    w.radio.log <+: (w.drive R.recorded a event).radio.log := by
  rw [drive_eq]
  exact log_settle R a _ (w.transition R.recorded a event).2

theorem settings_execute (R : Radio σ) (a : Address) (step : Step) (w : World σ) :
    (w.execute R a step).2.central.settings = w.central.settings := by
  cases step with
  | release => rfl
  | run action handle =>
    cases action <;> simp only [execute, perform, registry_askOn, registry_switch] <;> try rfl
    split <;> rfl

theorem settings_settle (R : Radio σ) (a : Address) (steps : List Step) (w : World σ) :
    (w.settle R a steps []).central.settings = w.central.settings :=
  settle_induction (I := fun _ _ w' => w'.central.settings = w.central.settings)
    (fun step _ _ w' now => (settings_execute R a step w').trans now) (fun _ _ _ now => now) rfl

theorem settings_drive (R : Radio σ) (a : Address) (event : PeerEvent) (w : World σ) :
    (w.drive R a event).central.settings = w.central.settings := by
  rw [drive_eq]
  exact settings_settle R a _ _

end RadioCentral.World
