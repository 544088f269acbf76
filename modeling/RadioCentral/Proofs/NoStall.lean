import RadioCentral.Proofs.CentralCoherence
import RadioCentral.Proofs.Waiting

/-!
No peer is ever stuck. Between operations a peer is ready, or all it waits for is really outstanding.
-/
namespace RadioCentral

open Registry (Step)

variable {σ : Type}

/-- An answer means something to the peer that holds the handle, and ends its wait. -/
theorem Wait.AnsweredBy.resolves {h : Handle} {x : Wait} {event : RadioEvent}
    (answers : x.AnsweredBy h event) (service : Uuid) :
    ∃ told : PeerEvent, event.peerEvent? service = some (h, told) ∧ told.Resolves x := by
  cases answers with
  | linkUp => exact ⟨_, rfl, .linkUp⟩
  | linkFailed => exact ⟨_, rfl, .linkFailed⟩
  | linkLoss => exact ⟨_, rfl, .linkLost⟩
  | discovery => exact ⟨_, rfl, .discovered⟩
  | unitSize => exact ⟨_, rfl, .unitSize⟩
  | @enable u success =>
    cases success with
    | true => exact ⟨.enabled u, rfl, .enabled⟩
    | false => exact ⟨.enableFailed u, rfl, .enableFailed⟩
  | @disable u success => exact ⟨.disableSettled u, rfl, .settled⟩

namespace Peer

variable {p q : Peer} {x : Wait}

theorem Live.holds_of_awaits (live : p.Live) (awaits : p.Awaits x) (other : x ≠ .attempt) :
    ∃ h, p.handle = some h := by
  rw [← Option.isSome_iff_exists]
  cases x with
  | attempt => exact absurd rfl other
  | link => exact Option.isSome_iff_ne_none.2 awaits.2
  | enable | disable | linkLoss => exact live.holding (by simp [awaits.1])
  | discovery | unitSize =>
    have phase := awaits
    simp only [Awaits] at phase
    exact live.holding (by simp [phase])

/-- A connecting peer waits for its attempt to be taken up, or for the link. -/
theorem Awaits.of_connecting (awaits : p.Awaits x) (phase : p.phase = .connecting) :
    x = .attempt ∧ p.handle = none ∨ x = .link ∧ p.handle ≠ none := by
  cases x with
  | attempt => exact Or.inl ⟨rfl, awaits.2⟩
  | link => exact Or.inr ⟨rfl, awaits.2⟩
  | enable | disable | linkLoss => exact absurd (phase.symm.trans awaits.1) (by simp)
  | discovery | unitSize => exact absurd (phase.symm.trans awaits) (by simp)

theorem Outstanding.congr {queue : List Address} {log : Log} (outstanding : p.Outstanding queue log x)
    (address : q.address = p.address) (handle : q.handle = p.handle) : q.Outstanding queue log x := by
  simpa only [Outstanding, address, handle] using outstanding

end Peer

theorem Action.eq_connect {action : Action} (starts : action.starts? = some .attempt) :
    action = .connect := by
  cases action <;> first | rfl | cases starts

namespace World

/-- Steps only add to the queue of attempts. -/
theorem queue_execute (R : Radio σ) (a : Address) (step : Step) (w : World σ) :
    w.central.dispatch.queue <+: (w.execute R a step).2.central.dispatch.queue := by
  cases step with
  | release => exact List.prefix_refl _
  | run action handle =>
    cases action with
    | connect =>
      simp only [execute, perform, Dispatch.send]
      split
      · exact List.prefix_refl _
      · exact List.prefix_append _ _
    | resumeScanning =>
      simp only [execute, perform]
      split <;> exact List.prefix_refl _
    | discoverServices | subscribe | unsubscribe | requestUnitSize | invalidateCache | disconnect =>
      simp only [execute, perform, registry_askOn, registry_switch]
      exact List.prefix_refl _
    | pauseScanning | release | forget | reportConnected | reportDisconnected =>
      exact List.prefix_refl _

/-- An attempt is queued, or fails at once. -/
theorem queue_connect (R : Radio σ) (a : Address) (handle : Option Handle) (w : World σ) :
    (w.execute R a (.run .connect handle)).1 = some .connectFailed ∨
      a ∈ (w.execute R a (.run .connect handle)).2.central.dispatch.queue := by
  simp only [execute, perform, Dispatch.send]
  split
  · exact Or.inl rfl
  · exact Or.inr (by simp)

/-- All that the peer of an address waits for is outstanding. -/
def Serves (w : World (Recorded σ)) (b : Address) : Prop :=
  ∀ p x, w.central.registry.get? b = some p → p.Awaits x →
    p.Outstanding w.central.dispatch.queue w.radio.log x

/-- What holds while the peer of an address settles: each of its waits is outstanding, or a step will
start it, or an event will resolve it. -/
structure Settles (a : Address) (steps : List Step) (events : List PeerEvent)
    (w : World (Recorded σ)) : Prop where
  orderly : w.central.registry.Orderly
  linked : w.central.registry.Linked a steps
  fitted : ∀ b p, w.central.registry.get? b = some p → p.Fitted
  aimed : ∀ action handle, .run action handle ∈ steps → action.Fitted
  others : ∀ b, b ≠ a → w.Serves b
  own : ∀ p x, w.central.registry.get? a = some p → p.Awaits x →
    p.Outstanding w.central.dispatch.queue w.radio.log x ∨
      (∃ action handle, .run action handle ∈ steps ∧ action.starts? = some x) ∨
        ∃ event ∈ events, event.Resolves x

/-- A step that starts a wait makes it outstanding or calls for what resolves it. -/
theorem started_execute {R : Radio σ} {a : Address} {p : Peer} {x : Wait} {action : Action}
    {more : Log} {w : World (Recorded σ)} (live : p.Live) (address : p.address = a)
    (fitted : action.Fitted) (awaits : p.Awaits x) (starts : action.starts? = some x)
    (grown : (w.execute R.recorded a (.run action p.handle)).2.radio.log = w.radio.log ++ more)
    (carried : Carried (.run action p.handle) more
      (w.execute R.recorded a (.run action p.handle)).1) :
    p.Outstanding (w.execute R.recorded a (.run action p.handle)).2.central.dispatch.queue
        (w.execute R.recorded a (.run action p.handle)).2.radio.log x ∨
      ∃ e ∈ (w.execute R.recorded a (.run action p.handle)).1, e.Resolves x := by
  by_cases attempt : x = .attempt
  · subst attempt
    obtain rfl := Action.eq_connect starts
    rcases queue_connect R.recorded a p.handle w with failed | queued
    · exact Or.inr ⟨.connectFailed, failed, .connectFailed⟩
    · exact Or.inl (Or.inl ⟨rfl, by rw [address]; exact queued⟩)
  · obtain ⟨h, holds⟩ := live.holds_of_awaits awaits attempt
    have silent := carried.silent_log
    rw [grown]
    rw [holds] at carried ⊢
    rcases carried.starts fitted starts attempt with ⟨e, he, begun⟩ | resolved
    · exact Or.inl (Or.inr ⟨h, holds, Log.unanswered_of_mem he begun silent⟩)
    · exact Or.inr resolved

theorem settles_execute {R : Radio σ} {a : Address} {step : Step} {steps : List Step}
    {events : List PeerEvent} {more : Log} {w : World (Recorded σ)}
    (settles : Settles a (step :: steps) events w)
    (grown : (w.execute R.recorded a step).2.radio.log = w.radio.log ++ more)
    (carried : Carried step more (w.execute R.recorded a step).1) :
    Settles a steps (events ++ (w.execute R.recorded a step).1.toList)
      (w.execute R.recorded a step).2 := by
  have registry := registry_execute R.recorded a step w
  have queue := queue_execute R.recorded a step w
  have still : ∀ {p : Peer} {x : Wait}, p.Outstanding w.central.dispatch.queue w.radio.log x →
      p.Outstanding (w.execute R.recorded a step).2.central.dispatch.queue
        (w.execute R.recorded a step).2.radio.log x := by
    intro p x outstanding
    rw [grown]
    exact outstanding.grow (fun _ queued => queue.subset queued)
      fun event told => absurd told (carried.silent_log event)
  constructor
  · rw [registry]
    exact settles.orderly
  · rw [registry]
    exact fun p here action handle mem => settles.linked p here action handle (List.mem_cons_of_mem _ mem)
  · rw [registry]
    exact settles.fitted
  · exact fun action handle mem => settles.aimed action handle (List.mem_cons_of_mem _ mem)
  · intro b other p x here awaits
    rw [registry] at here
    exact still (settles.others b other p x here awaits)
  · intro p x here awaits
    rw [registry] at here
    rcases settles.own p x here awaits with outstanding | ⟨action, handle, mem, starts⟩ | ⟨e, he, resolves⟩
    · exact Or.inl (still outstanding)
    · rcases List.mem_cons.1 mem with rfl | later
      · obtain rfl := settles.linked p here action handle List.mem_cons_self
        rcases started_execute (settles.orderly.live a p here) (Registry.address_of_get? here)
          (settles.aimed action p.handle List.mem_cons_self) awaits starts grown carried with
          outstanding | ⟨e, he, resolves⟩
        · exact Or.inl outstanding
        · exact Or.inr (Or.inr ⟨e, List.mem_append_right _ (by simpa using he), resolves⟩)
      · exact Or.inr (Or.inl ⟨action, handle, later, starts⟩)
    · exact Or.inr (Or.inr ⟨e, List.mem_append_left _ he, resolves⟩)

theorem settles_transition {R : Radio σ} {a : Address} {event : PeerEvent} {events : List PeerEvent}
    {w : World (Recorded σ)} (settles : Settles a [] (event :: events) w)
    (linked : event = .linkUp → ∀ p, w.central.registry.get? a = some p → p.handle.isSome)
    (services : ∀ cs, event = .servicesDiscovered (some cs) → ∀ c ∈ cs, c.Fitted) :
    Settles a (w.transition R.recorded a event).1 events (w.transition R.recorded a event).2 := by
  have fitted := Registry.fitted_advance (w.policy R.recorded) a settles.fitted services
  have spec := w.central.registry.advance_spec (w.policy R.recorded) a event
  refine ⟨settles.orderly.advance _ a event linked, Registry.linked_advance _ a event _, fitted.1,
    fitted.2, ?_, ?_⟩
  · intro b other p x here awaits
    exact settles.others b other p x ((Registry.get?_advance_ne other).symm.trans here) awaits
  · intro q x there awaits
    have there : (w.central.registry.advance (w.policy R.recorded) a event).2.get? a = some q := there
    simp only [transition]
    generalize (w.central.registry.advance (w.policy R.recorded) a event).1 = steps at spec ⊢
    generalize (w.central.registry.advance (w.policy R.recorded) a event).2 = after at spec there ⊢
    have before : ∀ p, w.central.registry.get? a = some p → p.Awaits x → ¬ event.Resolves x →
        p.Outstanding w.central.dispatch.queue w.radio.log x ∨ ∃ e ∈ events, e.Resolves x := by
      intro p here awaits unresolved
      rcases settles.own p x here awaits with outstanding | ⟨_, _, mem, _⟩ | ⟨e, he, resolves⟩
      · exact Or.inl outstanding
      · cases mem
      · rcases List.mem_cons.1 he with rfl | later
        · exact absurd resolves unresolved
        · exact Or.inr ⟨e, later, resolves⟩
    cases spec with
    | ignored why =>
      rcases before q there awaits fun resolves =>
        Peer.react_ne_none awaits resolves (why q there) with outstanding | later
      · exact Or.inl outstanding
      · exact Or.inr (Or.inr later)
    | @kept p q' actions here moved =>
      rw [Registry.get?_putBack here moved, if_pos rfl] at there
      obtain rfl := Option.some.inj there
      rcases moved.awaits (settles.orderly.live a p here) awaits with
        ⟨awaited, unresolved⟩ | ⟨action, mem, starts⟩
      · rcases before p here awaited unresolved with outstanding | later
        · exact Or.inl (outstanding.congr moved.address_eq moved.handle_eq)
        · exact Or.inr (Or.inr later)
      · exact Or.inr (Or.inl ⟨action, p.handle, List.mem_map_of_mem mem, starts⟩)
    | ended => simp [Registry.get?_remove_self] at there

theorem settles_settle {R : Radio σ} {a : Address} {steps : List Step} {w : World (Recorded σ)}
    (settles : Settles a steps [] w) : Settles a [] [] (w.settle R.recorded a steps []) := by
  refine settle_recorded (I := Settles a) ?_ ?_ settles
  · rintro step steps events w more event now grown carried rfl
    exact settles_execute now grown carried
  · intro event events w followUp now
    refine settles_transition now (fun up => ?_) fun cs found => ?_
    · rw [up] at followUp
      cases followUp
    · rw [found] at followUp
      cases followUp

theorem settles_drive {R : Radio σ} {a : Address} {event : PeerEvent} {w : World (Recorded σ)}
    (settles : Settles a [] [event] w)
    (linked : event = .linkUp → ∀ p, w.central.registry.get? a = some p → p.handle.isSome)
    (services : ∀ cs, event = .servicesDiscovered (some cs) → ∀ c ∈ cs, c.Fitted) :
    Settles a [] [] (w.drive R.recorded a event) := by
  rw [drive_eq]
  exact settles_settle (settles_transition settles linked services)

/-- What holds between operations. -/
structure Served (w : World (Recorded σ)) : Prop where
  orderly : w.central.registry.Orderly
  fitted : ∀ b p, w.central.registry.get? b = some p → p.Fitted
  served : ∀ b, w.Serves b

theorem Settles.done {a : Address} {w : World (Recorded σ)} (settles : Settles a [] [] w) :
    w.Served := by
  refine ⟨settles.orderly, settles.fitted, fun b => ?_⟩
  by_cases same : b = a
  · rintro p x here awaits
    rcases settles.own p x (same ▸ here) awaits with outstanding | ⟨_, _, mem, _⟩ | ⟨_, mem, _⟩
    · exact outstanding
    · cases mem
    · cases mem
  · exact settles.others b same

/-- What a world does for a peer it still does when nothing is answered and no attempt is taken. -/
theorem Serves.grow {w w' : World (Recorded σ)} {b : Address} {more : Log} (serves : w.Serves b)
    (registry : w'.central.registry.get? b = w.central.registry.get? b)
    (grown : w'.radio.log = w.radio.log ++ more)
    (queue : ∀ p, w.central.registry.get? b = some p → p.Awaits .attempt →
      b ∈ w.central.dispatch.queue → b ∈ w'.central.dispatch.queue)
    (quiet : ∀ p, w.central.registry.get? b = some p → ∀ event, .told event ∈ more →
      ∀ (h : Handle) (x : Wait), p.handle = some h → ¬ x.AnsweredBy h event) : w'.Serves b := by
  intro p x here awaits
  rw [registry] at here
  have address := Registry.address_of_get? here
  rw [grown]
  refine (serves p x here awaits).grow ?_ fun event told h holds => quiet p here event told h x holds
  rintro rfl queued
  rw [address] at queued ⊢
  exact queue p here awaits queued

theorem served_of_empty {w : World (Recorded σ)} (empty : w.central.registry = {}) : w.Served := by
  have nobody : ∀ b, w.central.registry.get? b = none := by
    rw [empty]
    exact fun _ => rfl
  constructor
  case orderly =>
    rw [empty]
    exact Registry.orderly_empty
  case fitted =>
    intro b p here
    rw [nobody b] at here
    cases here
  case served =>
    intro b p x here
    rw [nobody b] at here
    cases here

theorem Served.kept {w w' : World (Recorded σ)} (served : w.Served)
    (registry : w'.central.registry = w.central.registry) (serves : ∀ b, w'.Serves b) : w'.Served := by
  refine ⟨?_, ?_, serves⟩
  · rw [registry]
    exact served.orderly
  · rw [registry]
    exact served.fitted

/-- A peer begins to settle with an event that resolves those of its waits that are not outstanding. -/
theorem Served.settles {a : Address} {event : PeerEvent} {w w' : World (Recorded σ)}
    (served : w.Served) (registry : w'.central.registry = w.central.registry)
    (others : ∀ b, b ≠ a → w'.Serves b)
    (own : ∀ p x, w.central.registry.get? a = some p → p.Awaits x →
      p.Outstanding w'.central.dispatch.queue w'.radio.log x ∨ event.Resolves x) :
    Settles a [] [event] w' where
  orderly := by
    rw [registry]
    exact served.orderly
  linked := fun _ _ _ _ mem => absurd mem List.not_mem_nil
  fitted := by
    rw [registry]
    exact served.fitted
  aimed := fun _ _ mem => absurd mem List.not_mem_nil
  others := others
  own := by
    intro p x here awaits
    rw [registry] at here
    rcases own p x here awaits with outstanding | resolves
    · exact Or.inl outstanding
    · exact Or.inr (Or.inr ⟨event, List.mem_singleton.2 rfl, resolves⟩)

theorem Popped.mem {w w' : World σ} {a b : Address} (popped : w.Popped w' a) (other : b ≠ a)
    (queued : b ∈ w.central.dispatch.queue) : b ∈ w'.central.dispatch.queue := by
  rcases popped with same | taken
  · rwa [same]
  · rw [taken] at queued
    exact (List.mem_cons.1 queued).resolve_left other

/-- Characteristics come to a peer from the services that the radio tells of. -/
theorem fitted_of_told {service : Uuid} {event : RadioEvent} {k : Handle} {log : Log}
    {cs : List Characteristic} (fits : log.Fitted) (mem : .told event ∈ log)
    (means : event.peerEvent? service = some (k, .servicesDiscovered (some cs))) :
    ∀ c ∈ cs, c.Fitted := by
  cases event with
  | servicesDiscovered h services =>
    simp only [RadioEvent.peerEvent?, wantedCharacteristics, Option.some.injEq, Prod.mk.injEq,
      PeerEvent.servicesDiscovered.injEq, Option.map_eq_some_iff] at means
    obtain ⟨-, found, here, rfl⟩ := means
    exact fits h services mem found (List.mem_of_find?_eq_some here)
  | descriptorWritten h c value success =>
    simp only [RadioEvent.peerEvent?, Option.map_eq_some_iff, Prod.mk.injEq] at means
    obtain ⟨result, stands, -, rfl⟩ := means
    unfold Subscription.resultEvent? at stands
    split at stands
    · cases success <;> cases stands
    · split at stands <;> cases stands
  | connected | disconnected | unitSizeChanged => cases means
  | advertisement | characteristicChanged | characteristicWritten => cases means

theorem served_reached {R : Radio σ} {w : World (Recorded σ)} {event : RadioEvent} {a : Address}
    {told : PeerEvent} (reaches : w.Reaches event a told) (traced : w.central.registry.Traced)
    (fits : Log.Fitted (w.radio.log ++ [.told event])) (served : w.Served) :
    ((w.hear (some event)).drive R.recorded a told).Served := by
  obtain ⟨k, p, means, known, here, holds⟩ := reaches.holds served.orderly
  have only : ∀ told', Exchange.told told' ∈ [Exchange.told event] → told' = event := by simp
  have settles : Settles a [] [told] (w.hear (some event)) := by
    refine served.settles rfl (fun b other => ?_) fun q x there awaits => ?_
    · have grown : (w.hear (some event)).radio.log = w.radio.log ++ [.told event] := rfl
      refine (served.served b).grow rfl grown (fun _ _ _ => id) ?_
      intro q there told' mem h x held answers
      obtain rfl := only told' mem
      obtain ⟨result, stands, -⟩ := answers.resolves w.central.settings.service
      obtain ⟨rfl, -⟩ := Prod.mk.inj (Option.some.inj (means.symm.trans stands))
      exact other (Option.some.inj ((traced b q k there held).symm.trans known))
    · obtain rfl : p = q := Option.some.inj (here.symm.trans there)
      by_cases answered : x.AnsweredBy k event
      · obtain ⟨result, stands, resolves⟩ := answered.resolves w.central.settings.service
        obtain ⟨-, rfl⟩ := Prod.mk.inj (Option.some.inj (means.symm.trans stands))
        exact Or.inr resolves
      · refine Or.inl ((served.served a p x here awaits).grow (fun _ => id) ?_)
        intro told' mem h held
        obtain rfl := only told' mem
        obtain rfl : k = h := Option.some.inj (holds.symm.trans held)
        exact answered
  refine (settles_drive settles (reaches.linked served.orderly) fun cs found => ?_).done
  subst found
  exact fitted_of_told fits (List.mem_append_right _ (List.mem_singleton.2 rfl)) means

theorem served_admitted {R : Radio σ} {w : World (Recorded σ)} {a : Address} {data : Bytes}
    (unknown : w.central.registry.contains a = false) (served : w.Served) :
    (((w.hear (some (.advertisement a data))).enter a).settle R.recorded a
      [.run .pauseScanning none, .run .connect none] []).Served := by
  have view := Registry.get?_enroll unknown
  have settles : Settles a [.run .pauseScanning none, .run .connect none] []
      ((w.hear (some (.advertisement a data))).enter a) := by
    refine ⟨served.orderly.enroll unknown, Registry.linked_enroll unknown, fun b p here => ?_,
      fun action handle mem => ?_, fun b other => ?_, fun p x here awaits => ?_⟩
    · have here := (view b).symm.trans here
      by_cases same : b = a
      · obtain rfl : { address := a, phase := .connecting } = p := by simpa [same] using here
        exact fun c mem => absurd mem List.not_mem_nil
      · exact served.fitted b p (by simpa [same] using here)
    · simp only [List.mem_cons, Step.run.injEq, List.not_mem_nil, or_false] at mem
      rcases mem with ⟨rfl, -⟩ | ⟨rfl, -⟩ <;> trivial
    · have grown : ((w.hear (some (.advertisement a data))).enter a).radio.log =
          w.radio.log ++ [.told (.advertisement a data)] := rfl
      refine (served.served b).grow ((view b).trans (if_neg other)) grown (fun _ _ _ => id)
        fun p _ event mem h x _ answers => ?_
      obtain rfl : event = .advertisement a data := by simpa using mem
      cases answers
    · have here := (view a).symm.trans here
      obtain rfl : { address := a, phase := .connecting } = p := by simpa using here
      rcases awaits.of_connecting rfl with ⟨rfl, -⟩ | ⟨-, held⟩
      · exact Or.inr (Or.inl ⟨.connect, none, by simp, rfl⟩)
      · exact absurd rfl held
  exact (settles_settle settles).done

/-- Who waits for the connect request of an attempt waits for that attempt. -/
theorem awaitsConnect_iff {w : World σ} {a : Address} {p : Peer}
    (here : w.central.registry.get? a = some p) : w.awaitsConnect a = true ↔ p.Awaits .attempt := by
  simp [awaitsConnect, here, Peer.Awaits]

theorem served_attached {w w' : World (Recorded σ)} {a : Address} {p : Peer} {h : Handle} {log : Log}
    (here : w.central.registry.get? a = some p) (phase : p.phase = .connecting) (bare : p.handle = none)
    (registry : w'.central.registry = (w.central.registry.attach a h).2)
    (grown : w'.radio.log = w.radio.log ++ log) (dials : Dials a log (some h)) (queue : w.Popped w' a)
    (served : w.Served) : w'.Served := by
  have view : ∀ b, w'.central.registry.get? b =
      if b = a then some { p with handle := some h } else w.central.registry.get? b := by
    rw [registry]
    exact Registry.get?_attach here bare phase
  refine ⟨by rw [registry]; exact served.orderly.attach here bare phase, fun b q there => ?_, fun b => ?_⟩
  · rw [view] at there
    by_cases same : b = a
    · obtain rfl : { p with handle := some h } = q := by simpa [same] using there
      exact served.fitted a p here
    · exact served.fitted b q (by simpa [same] using there)
  · by_cases same : b = a
    · intro q x there awaits
      rw [view, if_pos same] at there
      obtain rfl := Option.some.inj there
      rcases awaits.of_connecting phase with ⟨-, unheld⟩ | ⟨rfl, -⟩
      · cases unheld
      · obtain ⟨route, mem⟩ := dials.mem_of_accepted h rfl
        rw [grown]
        exact Or.inr ⟨h, rfl, Log.unanswered_of_mem mem .link dials.silent⟩
    · exact (served.served b).grow (by rw [view, if_neg same]) grown
        (fun _ _ _ => queue.mem same) fun _ _ event mem => absurd mem (dials.silent event)

theorem served_turn {R : Radio σ} {x : Happening σ} {w w' : World (Recorded σ)}
    (turn : Turn R x w w') (traced : w.central.registry.Traced) (kept : x ≠ .operation .dropDispatch)
    (fits : w'.radio.log.Fitted) (served : w.Served) : w'.Served := by
  cases turn with
  | quiet registry queue grown idle =>
    refine served.kept registry fun b => (served.served b).grow (by rw [registry]) grown ?_ ?_
    · rw [queue]
      exact fun _ _ _ => id
    intro p here event mem h x holds answers
    rcases idle _ mem with ⟨request, answer, same, -⟩ | ⟨event', same, unreached⟩
    · cases same
    · cases same
      obtain ⟨told, means, -⟩ := answers.resolves w.central.settings.service
      exact unreached b told ⟨h, means, traced b p h here holds⟩
  | @reached _ event a told reaches =>
    refine served_reached reaches traced (fun h services mem => fits h services ?_) served
    exact (log_drive R a told (w.hear (some event))).subset mem
  | disconnected a =>
    have settles : Settles a [] [.disconnectRequested] w :=
      served.settles rfl (fun b _ => served.served b) fun p x here awaits =>
        Or.inl (served.served a p x here awaits)
    exact (settles_drive settles (by rintro ⟨⟩) (by rintro _ ⟨⟩)).done
  | admitted unknown => exact served_admitted unknown served
  | @passed _ _ _ a past registry log queue =>
    have grown : w'.radio.log = w.radio.log ++ [] := by rw [log, List.append_nil]
    refine served.kept registry fun b => (served.served b).grow (by rw [registry]) grown ?_ (by simp)
    intro p here awaits
    refine queue.mem ?_
    rintro rfl
    rw [(awaitsConnect_iff here).2 awaits] at past
    cases past
  | attached here phase bare registry grown dials queue =>
    exact served_attached here phase bare registry grown dials queue served
  | @failed _ _ w' a log waits registry grown dials queue =>
    have settles : Settles a [] [.connectFailed] w' := by
      refine served.settles registry (fun b other => ?_) fun p x here awaits => ?_
      · exact (served.served b).grow (by rw [registry]) grown (fun _ _ _ => queue.mem other)
          fun _ _ event mem => absurd mem (dials.silent event)
      · obtain ⟨phase, bare⟩ := (awaitsConnect_iff here).1 waits
        rcases awaits.of_connecting phase with ⟨rfl, -⟩ | ⟨-, held⟩
        · exact Or.inr .connectFailed
        · exact absurd bare held
    exact (settles_drive settles (by rintro ⟨⟩) (by rintro _ ⟨⟩)).done
  | written _ _ _ registry queue grown =>
    refine served.kept registry fun b => (served.served b).grow (by rw [registry]) grown ?_ (by simp)
    rw [queue]
    exact fun _ _ _ => id
  | reset order => exact served_of_empty (registry_reset R w order)
  | dropped => exact absurd rfl kept

theorem served_outcome (R : Radio σ) (settings : Settings) (s : σ) (history : List (Happening σ))
    (distinct : (outcome R settings s history).radio.log.issued.Nodup)
    (kept : .operation .dropDispatch ∉ history)
    (fits : (outcome R settings s history).radio.log.Fitted) : (outcome R settings s history).Served := by
  have all := history_induction R settings s
    (P := fun history w => Conserved w.central.registry w.radio.log [] ∧ (w.radio.log.issued.Nodup →
      w.central.registry.Traced ∧ (.operation .dropDispatch ∉ history → w.radio.log.Fitted → w.Served)))
    ?start ?grow ?turn history
  case start =>
    exact ⟨conserved_empty, fun _ => ⟨Registry.traced_empty, fun _ _ => served_of_empty rfl⟩⟩
  case grow =>
    rintro history x ⟨conserved, rest⟩
    refine ⟨conserved, fun distinct => ⟨(rest distinct).1, fun kept => (rest distinct).2 ?_⟩⟩
    exact fun mem => kept (List.mem_append_left [x] mem)
  case turn =>
    rintro history x w w' - - - turn ⟨conserved, rest⟩
    refine ⟨conserved_turn turn conserved, fun distinct => ?_⟩
    obtain ⟨traced, served⟩ := rest ((issued_turn R turn).nodup distinct)
    refine ⟨traced_turn turn conserved distinct traced, fun kept fits => ?_⟩
    refine served_turn turn traced (fun drop => kept (by simp [drop])) fits (served kept ?_)
    exact fun h services mem => fits h services ((log_turn R turn).subset mem)
  exact (all.2 distinct).2 kept fits

end World

def Exchange.services? : Exchange → Option (List Service)
  | .told (.servicesDiscovered _ services) => some services
  | _ => none

/-- A peer that is not ready waits for something, and for nothing that is not outstanding. -/
def Peer.UnderWay (queue : List Address) (log : Log) (p : Peer) : Prop :=
  match p.phase with
  | .connecting =>
    match p.handle with
    | none => p.address ∈ queue
    | some h => log.Unanswered h .link
  | .discovering => ∃ h, p.handle = some h ∧ log.Unanswered h .discovery
  | .subscribing => ∃ h, p.handle = some h ∧ p.pendingEnable.isEmpty = false ∧
    ∀ u ∈ p.pendingEnable, log.Unanswered h (.enable u)
  | .negotiating => ∃ h, p.handle = some h ∧ log.Unanswered h .unitSize
  | .ready => True
  | .disconnecting => ∃ h, p.handle = some h ∧
    ((p.pendingDisable.isEmpty = false ∧ ∀ u ∈ p.pendingDisable, log.Unanswered h (.disable u)) ∨
      (p.pendingDisable.isEmpty = true ∧ log.Unanswered h .linkLoss))
  | .idle | .disconnected => False

theorem Peer.underWay_of_outstanding {queue : List Address} {log : Log} {p : Peer} (live : p.Live)
    (served : ∀ x, p.Awaits x → p.Outstanding queue log x) : p.UnderWay queue log := by
  have open' : ∀ {h x}, p.handle = some h → p.Awaits x → x ≠ .attempt → log.Unanswered h x := by
    intro h x holds awaits other
    rcases served x awaits with ⟨same, -⟩ | ⟨k, held, unanswered⟩
    · exact absurd same other
    · obtain rfl : h = k := Option.some.inj (holds.symm.trans held)
      exact unanswered
  have holding : p.phase ≠ .connecting → ∃ h, p.handle = some h := fun other =>
    Option.isSome_iff_exists.1 (live.holding other)
  unfold UnderWay
  split
  · rename_i phase
    split
    · rename_i bare
      rcases served .attempt ⟨phase, bare⟩ with ⟨-, queued⟩ | ⟨k, held, -⟩
      · exact queued
      · rw [bare] at held
        cases held
    · rename_i h holds
      exact open' holds ⟨phase, by simp [holds]⟩ (by simp)
  · rename_i phase
    obtain ⟨h, holds⟩ := holding (by simp [phase])
    exact ⟨h, holds, open' holds phase (by simp)⟩
  · rename_i phase
    obtain ⟨h, holds⟩ := holding (by simp [phase])
    exact ⟨h, holds, live.sound.enabling.2 phase, fun u pending => open' holds ⟨phase, pending⟩ (by simp)⟩
  · rename_i phase
    obtain ⟨h, holds⟩ := holding (by simp [phase])
    exact ⟨h, holds, open' holds phase (by simp)⟩
  · trivial
  · rename_i phase
    obtain ⟨h, holds⟩ := holding (by simp [phase])
    refine ⟨h, holds, ?_⟩
    cases settled : p.pendingDisable.isEmpty with
    | false => exact Or.inl ⟨rfl, fun u pending => open' holds ⟨phase, pending⟩ (by simp)⟩
    | true => exact Or.inr ⟨rfl, open' holds ⟨phase, settled⟩ (by simp)⟩
  · rename_i phase
    exact live.begun phase
  · rename_i phase
    exact live.there phase

namespace World

/-- No peer is ever stuck. If the radio never gives out a handle twice and every client configuration
descriptor it tells of names its characteristic, then wherever a run leads that has not dropped the
queue of attempts, every peer is ready or waits for what is really outstanding. -/
theorem peers_under_way (R : Radio σ) (settings : Settings) (s : σ) (history : List (Happening σ))
    (distinct : (outcome R settings s history).radio.log.issued.Nodup)
    (kept : .operation .dropDispatch ∉ history)
    (fits : ∀ h services,
      .told (.servicesDiscovered h services) ∈ (outcome R settings s history).radio.log →
        ∀ service ∈ services, ∀ c ∈ service.characteristics, ∀ d ∈ c.descriptors,
          d.uuid = Uuid.clientConfiguration → d.characteristic = c.uuid) :
    let w := outcome R settings s history
    ∀ p ∈ w.central.registry.peers, p.UnderWay w.central.dispatch.queue w.radio.log := by
  intro w p mem
  have served : w.Served := by
    refine served_outcome R settings s history distinct kept fun h services told service hs c hc d hd => ?_
    refine fits h services told service hs c hc d (List.mem_of_find?_eq_some hd) ?_
    simpa using List.find?_some hd
  have here := Registry.get?_of_mem served.orderly.unique mem
  exact Peer.underWay_of_outstanding (served.orderly.live p.address p here)
    fun x awaits => served.served p.address p x here awaits

theorem encounter_under_way :
    let w := outcome SimulatedRadio.radio Encounter.settings {} (Encounter.history.take 5)
    w.radio.log.issued.Nodup ∧ w.central.phase? ⟨"a"⟩ = some .subscribing ∧
      ∀ p ∈ w.central.registry.peers, p.UnderWay w.central.dispatch.queue w.radio.log := by
  have distinct := issued_nodup SimulatedRadio.numbers Encounter.settings {} (Encounter.history.take 5)
    (by simp [Encounter.history])
  have heard : (outcome SimulatedRadio.radio Encounter.settings {}
      (Encounter.history.take 5)).radio.log.filterMap Exchange.services? = [[Encounter.service]] := by cbv
  refine ⟨distinct, by cbv, peers_under_way SimulatedRadio.radio Encounter.settings {}
    (Encounter.history.take 5) distinct (by simp [Encounter.history]) fun h services told => ?_⟩
  have here : services ∈ [[Encounter.service]] := by
    rw [← heard]
    exact List.mem_filterMap.2 ⟨_, told, rfl⟩
  obtain rfl := List.mem_singleton.1 here
  decide

end World

end RadioCentral
