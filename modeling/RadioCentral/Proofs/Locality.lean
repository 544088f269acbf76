import RadioCentral.Proofs.Conversation
import RadioCentral.Proofs.Registry.Edits
import RadioCentral.Proofs.Scanning
import RadioCentral.Proofs.StatusReports

/-!
How far an operation on one peer reaches. What it does to the registry, asks of the radio and reports
is settled by that peer and by how the radio answers, whatever the other peers do; of what the peers
share it touches the scan only, which may go on once no attempt is open.
-/
namespace RadioCentral

open Registry (Step Edit Scope)

variable {σ : Type}

/-- How a radio answers whose answers do not depend on what happened before. -/
structure Answers where
  negotiates : Bool
  connect : Address → Route → Except RadioError Handle
  ask : Request → Bool

namespace Answers

def radio (F : Answers) : Radio σ where
  negotiates _ := F.negotiates
  connect a route s := (F.connect a route, s)
  ask request s := (F.ask request, s)

def resumed (F : Answers) (c : Scanner) : Scanner :=
  if c.requested && !c.active then { c with active := F.ask (.startScan c.mode c.service) } else c

variable (F : Answers)

theorem fst_resume (c : Scanner) (s : Recorded σ) :
    (Scanner.resume F.radio.recorded c s).1 = F.resumed c := by
  unfold Scanner.resume Scanner.activate resumed
  cases c.requested <;> cases c.active <;> rfl

/-- Trying once more makes no difference. -/
@[simp] theorem resumed_resumed (c : Scanner) : F.resumed (F.resumed c) = F.resumed c := by
  unfold resumed
  cases requested : c.requested <;> cases active : c.active <;> simp [requested, active]

end Answers

namespace Peer

variable {policy : LinkPolicy} {p q : Peer} {event : PeerEvent} {actions : List Action}

/-- Only the admission of a peer asks for its connection. -/
theorem Proceeds.undialed (moved : p.Proceeds policy event q actions) (begun : p.phase ≠ .idle) :
    .connect ∉ actions := by
  cases moved with
  | request phase => exact absurd phase begun
  | _ => simp [leavingActions]

theorem Ends.undialed {before : List Action} (ended : p.Ends event before) : .connect ∉ before := by
  cases ended <;> simp [leavingActions]

end Peer

namespace Registry

def Runs (a : Address) (held : Option Handle) (r : Registry) : Prop :=
  ∀ p, r.get? a = some p → p.phase ≠ .idle ∧ p.handle = held

def Step.resumes : Step → Bool
  | .run .resumeScanning _ => true
  | _ => false

def Step.Local (held : Option Handle) : Step → Prop
  | .run action handle => handle = held ∧ action ≠ .pauseScanning ∧ action ≠ .connect
  | .release h => held = some h

variable {policy : LinkPolicy} {a : Address} {event : PeerEvent} {r : Registry} {held : Option Handle}

theorem Runs.advance (runs : r.Runs a held) : (r.advance policy a event).2.Runs a held := by
  have spec := r.advance_spec policy a event
  generalize (r.advance policy a event).1 = steps at spec
  generalize (r.advance policy a event).2 = after at spec ⊢
  intro s there
  cases spec with
  | ignored => exact runs s there
  | @kept p q actions here moved =>
    rw [get?_putBack here moved, if_pos rfl] at there
    obtain rfl := Option.some.inj there
    obtain ⟨begun, holds⟩ := runs p here
    exact ⟨moved.begun begun, moved.handle_eq.trans holds⟩
  | ended => simp [get?_remove_self] at there

theorem ClosedAt.advance (closed : r.ClosedAt a) : (r.advance policy a event).2.ClosedAt a := by
  have spec := r.advance_spec policy a event
  generalize (r.advance policy a event).1 = steps at spec
  generalize (r.advance policy a event).2 = after at spec ⊢
  intro s there ready attempted
  cases spec with
  | ignored => exact closed s there ready attempted
  | @kept p q actions here moved =>
    rw [get?_putBack here moved, if_pos rfl] at there
    obtain rfl := Option.some.inj there
    exact (mem_connecting_putBack.1 attempted).2 ready rfl
  | ended => simp [get?_remove_self] at there

def TracedAt (a : Address) (r : Registry) : Prop :=
  ∀ p h, r.get? a = some p → p.handle = some h → r.addressFor? h = some a

theorem TracedAt.advance (traced : r.TracedAt a) : (r.advance policy a event).2.TracedAt a := by
  have spec := r.advance_spec policy a event
  generalize (r.advance policy a event).1 = steps at spec
  generalize (r.advance policy a event).2 = after at spec ⊢
  intro s h there holds
  cases spec with
  | ignored => exact traced s h there holds
  | @kept p q actions here moved =>
    rw [get?_putBack here moved, if_pos rfl] at there
    obtain rfl := Option.some.inj there
    rw [addressFor?, index_putBack]
    exact traced p h here (moved.handle_eq ▸ holds)
  | ended => simp [get?_remove_self] at there

/-- A step on one handle makes no request on another. -/
theorem Step.Local.owed_eq_nil {step : Step} {h : Handle} (near : step.Local held) (other : held ≠ some h) :
    owed h [step] = [] := by
  cases step with
  | run action handle => exact owed_run_other (near.1 ▸ other) [action]
  | release k =>
    have other : k ≠ h := fun same => other (same ▸ near)
    simp [owed, Step.requests, Request.handle?, other]

theorem local_run {actions : List Action} (pause : .pauseScanning ∉ actions)
    (connect : .connect ∉ actions) : ∀ step ∈ actions.map (Step.run · held), step.Local held := by
  intro step mem
  obtain ⟨action, asked, rfl⟩ := List.mem_map.1 mem
  exact ⟨rfl, fun same => pause (same ▸ asked), fun same => connect (same ▸ asked)⟩

theorem local_advance (runs : r.Runs a held) :
    ∀ step ∈ (r.advance policy a event).1, step.Local held := by
  have spec := r.advance_spec policy a event
  generalize (r.advance policy a event).1 = steps at spec ⊢
  generalize (r.advance policy a event).2 = after at spec
  cases spec with
  | ignored => simp
  | @kept p q actions here moved =>
    obtain ⟨begun, rfl⟩ := runs p here
    exact local_run (moved.unpaused begun) (moved.undialed begun)
  | @ended p before here ended =>
    obtain ⟨-, rfl⟩ := runs p here
    intro step mem
    rcases List.mem_append.1 mem with first | rest
    · exact local_run ended.unpaused ended.undialed step first
    · rcases List.mem_append.1 rest with back | last
      · obtain ⟨h, holds, rfl⟩ := List.mem_map.1 back
        exact Option.mem_toList.1 holds
      · have ends : ∀ step ∈ [Action.reportDisconnected, .resumeScanning].map (Step.run · p.handle),
            step.Local p.handle := local_run (by simp) (by simp)
        exact ends step last

/-- An event changes the registry by an edit that the peer of its address alone decides on. -/
theorem advance_local (policy : LinkPolicy) (event : PeerEvent) (runs : r.Runs a held) :
    ∃ ds : List Edit, (∀ d ∈ ds, d.Within ⟨a, held, none⟩) ∧
      ((∃ d ∈ ds, d.closes = true) → ∃ step ∈ (r.advance policy a event).1, step.resumes = true) ∧
      ∀ r' : Registry, r'.get? a = r.get? a → r'.ClosedAt a →
        r'.advance policy a event = ((r.advance policy a event).1, r'.edit ds) ∧
          (r'.edit ds).get? a = (r.advance policy a event).2.get? a := by
  rcases react_cases policy event (r.get? a) with refused | ⟨p, q, actions, here, next, moved⟩ |
    ⟨p, q, before, here, next, ended, phase, address, handle⟩
  · refine ⟨[], by simp, by simp, fun r' same _ => ?_⟩
    rw [advance_of_refused refused, advance_of_refused (same ▸ refused)]
    exact ⟨rfl, same⟩
  · have own : q.address = a := moved.address_eq.trans (address_of_get? here)
    refine ⟨[.put a p q own], ?_, ?_, fun r' same closed => ?_⟩
    · simp only [List.forall_mem_singleton]
      exact ⟨rfl, Or.inl rfl, Or.inl rfl⟩
    · simp only [List.mem_singleton, exists_eq_left, Edit.put, decide_eq_true_eq]
      rintro ⟨unready, ready⟩
      rw [advance_of_proceeds here next moved]
      exact ⟨_, List.mem_map.2 ⟨_, moved.resumes unready ready, rfl⟩, rfl⟩
    · have there : r'.get? a = some p := same.trans here
      rw [advance_of_proceeds here next moved, advance_of_proceeds there next moved,
        putBack_eq_apply closed there own]
      refine ⟨rfl, ?_⟩
      rw [get?_putBack here moved, if_pos rfl]
      show (Edit.apply r' (.put a p q own)).get? a = some q
      rw [← putBack_eq_apply closed there own, get?_putBack there moved, if_pos rfl]
  · refine ⟨[.drop a p.handle], ?_, ?_, fun r' same _ => ?_⟩
    · simp only [List.forall_mem_singleton]
      exact ⟨rfl, Or.inr (runs p here).2, Or.inl rfl⟩
    · intro _
      rw [advance_of_ends here next ended phase address handle]
      exact ⟨.run .resumeScanning p.handle, by simp, rfl⟩
    · have there : r'.get? a = some p := same.trans here
      rw [advance_of_ends here next ended phase address handle,
        advance_of_ends there next ended phase address handle, remove_eq_apply there]
      refine ⟨rfl, ?_⟩
      rw [get?_remove_self]
      show (Edit.apply r' (.drop a p.handle)).get? a = none
      rw [← remove_eq_apply there, get?_remove_self]

end Registry

/-- What an operation on one peer does. -/
structure Effect where
  edits : List Edit := []
  requests : Handle → List Request := fun _ => []
  reports : List Report := []
  /-- Whether the scan may go on if no attempt is open any more. -/
  resumes : Bool := false

namespace Effect

def andThen (e f : Effect) : Effect where
  edits := e.edits ++ f.edits
  requests h := e.requests h ++ f.requests h
  reports := e.reports ++ f.reports
  resumes := e.resumes || f.resumes

structure Within (s : Scope) (e : Effect) : Prop where
  edits : ∀ d ∈ e.edits, d.Within s
  requests : ∀ h, s.held ≠ some h → e.requests h = []
  reports : ∀ r ∈ e.reports, r.address = s.address

def Complete (e : Effect) : Prop := e.resumes = false → ∀ d ∈ e.edits, d.closes = false

variable {e f : Effect} {s : Scope}

theorem within_empty (s : Scope) : Within s {} := ⟨by simp, fun _ _ => rfl, by simp⟩

theorem Within.andThen (he : e.Within s) (hf : f.Within s) : (e.andThen f).Within s := by
  constructor
  case edits => exact List.forall_mem_append.2 ⟨he.edits, hf.edits⟩
  case requests =>
    intro h other
    simp only [Effect.andThen, he.requests h other, hf.requests h other, List.append_nil]
  case reports => exact List.forall_mem_append.2 ⟨he.reports, hf.reports⟩

/-- Nothing is reported of other peers. -/
theorem Within.filter_reports (he : e.Within s) {a : Address} (other : a ≠ s.address) :
    e.reports.filter (fun r => r.address = a) = [] :=
  List.filter_eq_nil_iff.2 fun r hr => by simp [he.reports r hr, Ne.symm other]

theorem Complete.andThen (he : e.resumes = false → f.resumes = false → ∀ d ∈ e.edits, d.closes = false)
    (hf : f.Complete) : (e.andThen f).Complete := by
  intro still
  obtain ⟨first, second⟩ := Bool.or_eq_false_iff.1 still
  exact List.forall_mem_append.2 ⟨he first second, hf second⟩

end Effect

namespace Answers

variable (F : Answers)

def scanAfter (e : Effect) (r : Registry) (c : Scanner) : Scanner :=
  if e.resumes = true ∧ r.connecting = [] then F.resumed c else c

def play (e : Effect) (c : Central) : Central :=
  let registry := c.registry.edit e.edits
  { c with
    registry
    scanner := F.scanAfter e registry c.scanner
    reports := c.reports ++ e.reports }

@[simp] theorem play_empty (c : Central) : F.play {} c = c := by
  simp [play, scanAfter]

/-- The scan goes on if no attempt is open in the end, whichever of two effects let it. -/
theorem scanAfter_andThen {e f : Effect} (complete : f.Complete) (r : Registry) (c : Scanner) :
    F.scanAfter (e.andThen f) (r.edit f.edits) c =
      F.scanAfter f (r.edit f.edits) (F.scanAfter e r c) := by
  unfold scanAfter
  by_cases last : (r.edit f.edits).connecting = []
  · cases resumes : f.resumes with
    | false =>
      have same := Registry.connecting_edit_of_open (r := r) (complete resumes)
      simp [Effect.andThen, resumes, ← same, last]
    | true =>
      simp only [Effect.andThen, resumes, last, Bool.or_true, and_self, ↓reduceIte]
      split <;> simp
  · have opened : r.connecting ≠ [] := fun none => by
      have closed : ∀ b ∈ (r.edit f.edits).connecting, b ∈ r.connecting :=
        Registry.connecting_edit_subset
      rw [none] at closed
      exact last (List.eq_nil_iff_forall_not_mem.2 fun b hb => List.not_mem_nil (closed b hb))
    simp [last, opened]

theorem play_andThen {e f : Effect} (complete : f.Complete) (c : Central) :
    F.play (e.andThen f) c = F.play f (F.play e c) := by
  have edits : c.registry.edit (e.andThen f).edits = (c.registry.edit e.edits).edit f.edits :=
    Registry.edit_append _ _ _
  simp only [play, edits, F.scanAfter_andThen complete]
  simp only [Effect.andThen, List.append_assoc]

end Answers

/-- The second world is the first after an effect. -/
structure Brings (F : Answers) (e : Effect) (w v : World (Recorded σ)) : Prop where
  central : v.central = F.play e w.central
  requests : ∀ h, v.radio.log.requestsOn h = w.radio.log.requestsOn h ++ e.requests h

namespace Brings

variable {F : Answers} {e f : Effect} {w v u : World (Recorded σ)}

theorem refl (F : Answers) (w : World (Recorded σ)) : Brings F {} w w :=
  ⟨(F.play_empty w.central).symm, fun _ => (List.append_nil _).symm⟩

theorem trans (first : Brings F e w v) (second : Brings F f v u) (complete : f.Complete) :
    Brings F (e.andThen f) w u := by
  constructor
  case central => rw [second.central, first.central, F.play_andThen complete]
  case requests =>
    intro h
    rw [second.requests, first.requests, List.append_assoc]
    rfl

/-- What is put into the record beside requests that name a handle makes no difference. -/
theorem of_unnoticed {w' : World (Recorded σ)} (made : Brings F e w' v) (same : w'.central = w.central)
    (log : ∀ h, w'.radio.log.requestsOn h = w.radio.log.requestsOn h) : Brings F e w v :=
  ⟨by rw [made.central, same], fun h => by rw [made.requests, log]⟩

theorem reported (F : Answers) (r : Report) (w : World (Recorded σ)) :
    Brings F { reports := [r] } w (w.report r) :=
  ⟨by simp [Answers.play, Answers.scanAfter, World.report, Central.report], fun _ => (List.append_nil _).symm⟩

end Brings

namespace Effect

def ofStep (a : Address) (step : Step) : Effect where
  requests h := Registry.owed h [step]
  reports := step.said a
  resumes := step.resumes

theorem within_ofStep {a : Address} {held : Option Handle} {step : Step} (near : step.Local held) :
    (ofStep a step).Within ⟨a, held, none⟩ := by
  constructor
  case edits => exact fun d hd => absurd hd List.not_mem_nil
  case requests => exact fun h other => near.owed_eq_nil other
  case reports => exact fun r hr => (World.status_said r hr).2

end Effect

namespace World

variable {F : Answers} {a : Address} {held : Option Handle}

theorem fst_switch (c : Characteristic) (enable : Bool) (handle : Option Handle)
    (w v : World (Recorded σ)) :
    (w.switch F.radio.recorded c enable handle).1 = (v.switch F.radio.recorded c enable handle).1 := by
  cases handle with
  | none => rfl
  | some h =>
    unfold switch Subscription.set
    cases c.clientConfiguration? <;> rfl

/-- The event a step calls for does not depend on what else there is. -/
theorem fst_execute {step : Step} (near : step.Local held) (w v : World (Recorded σ)) :
    (w.execute F.radio.recorded a step).1 = (v.execute F.radio.recorded a step).1 := by
  cases step with
  | release => rfl
  | run action handle =>
    cases action with
    | connect => exact absurd rfl near.2.2
    | subscribe c => exact fst_switch c true handle w v
    | unsubscribe c => exact fst_switch c false handle w v
    | _ => cases handle <;> rfl

theorem central_execute {step : Step} (near : step.Local held) (w : World (Recorded σ)) :
    (w.execute F.radio.recorded a step).2.central = F.play (.ofStep a step) w.central := by
  have same : ∀ other : Effect, other.edits = [] → other.reports = [] → other.resumes = false →
      F.play other w.central = w.central := by
    intro other edits reports resumes
    simp [Answers.play, Answers.scanAfter, edits, reports, resumes]
  cases step with
  | release => exact (same _ rfl rfl rfl).symm
  | run action handle =>
    cases action with
    | pauseScanning => exact absurd rfl near.2.1
    | connect => exact absurd rfl near.2.2
    | resumeScanning =>
      have left : (w.scan (Scanner.resume F.radio.recorded)).central =
          { w.central with scanner := F.resumed w.central.scanner } := by
        simp only [scan, F.fst_resume]
      by_cases none : w.central.registry.connecting = []
      · simp [execute, perform, none, left, Answers.play, Answers.scanAfter, Effect.ofStep,
          Step.resumes, Step.said]
      · simp [execute, perform, none, Answers.play, Answers.scanAfter, Effect.ofStep, Step.said]
    | reportConnected | reportDisconnected => exact (Brings.reported F _ w).central
    | subscribe | unsubscribe => exact (registry_switch _ _ _ _ _).trans (same _ rfl rfl rfl).symm
    | discoverServices | requestUnitSize | invalidateCache | disconnect =>
      exact (registry_askOn _ _ _ _).trans (same _ rfl rfl rfl).symm
    | release | forget => exact (same _ rfl rfl rfl).symm

theorem brings_execute {step : Step} (near : step.Local held) (w : World (Recorded σ)) :
    Brings F (.ofStep a step) w (w.execute F.radio.recorded a step).2 := by
  obtain ⟨log, grown, carried⟩ := carried_execute F.radio a step w
  refine ⟨central_execute near w, fun h => ?_⟩
  rw [grown, Log.requestsOn_append, carried.requestsOn]
  rfl

/-- A world in which the peer of an address stands as it does in another one. -/
structure Resembles (a : Address) (v u : World σ) : Prop where
  peer : u.central.registry.get? a = v.central.registry.get? a
  settings : u.central.settings = v.central.settings
  notify : u.central.notify = v.central.notify
  closed : u.central.registry.ClosedAt a
  traced : u.central.registry.TracedAt a

theorem Resembles.policy {v u : World (Recorded σ)} (same : v.Resembles a u) :
    u.policy F.radio.recorded = v.policy F.radio.recorded := by
  simp only [World.policy, same.notify, same.settings]
  rfl

theorem Resembles.execute {v u : World (Recorded σ)} {step : Step} (same : v.Resembles a u)
    (near : step.Local held) :
    (v.execute F.radio.recorded a step).2.Resembles a (u.execute F.radio.recorded a step).2 := by
  constructor
  case peer =>
    rw [registry_execute, registry_execute]
    exact same.peer
  case settings =>
    rw [settings_execute, settings_execute]
    exact same.settings
  case notify =>
    rw [central_execute near, central_execute near]
    exact same.notify
  case closed =>
    rw [registry_execute]
    exact same.closed
  case traced =>
    rw [registry_execute]
    exact same.traced

/-- Something that is done in worlds amounts to one effect wherever the peer of an address stands as it
does in a given one. -/
structure Confined (F : Answers) (e : Effect) (s : Scope) (w : World (Recorded σ))
    (x : World (Recorded σ) → World (Recorded σ)) : Prop where
  within : e.Within s
  complete : e.Complete
  brings : ∀ u, w.Resembles s.address u → Brings F e u (x u)

theorem confined_nothing {s : Scope} {w : World (Recorded σ)}
    {x : World (Recorded σ) → World (Recorded σ)} (nothing : ∀ u, w.Resembles s.address u → x u = u) :
    Confined F {} s w x where
  within := Effect.within_empty s
  complete := fun _ => by simp
  brings u same := by
    rw [nothing u same]
    exact Brings.refl F u

theorem confined_report {s : Scope} {w : World (Recorded σ)} {r : Report}
    {x : World (Recorded σ) → World (Recorded σ)} (about : r.address = s.address)
    (reports : ∀ u, w.Resembles s.address u → x u = u.report r) :
    Confined F { reports := [r] } s w x where
  within := ⟨by simp, fun _ _ => rfl, by simpa using about⟩
  complete := fun _ => by simp
  brings u same := by
    rw [reports u same]
    exact Brings.reported F r u

theorem transition_effect (event : PeerEvent) {v : World (Recorded σ)}
    (runs : v.central.registry.Runs a held) :
    ∃ ds : List Edit, (∀ d ∈ ds, d.Within ⟨a, held, none⟩) ∧
      ((∃ d ∈ ds, d.closes = true) →
        ∃ step ∈ (v.transition F.radio.recorded a event).1, step.resumes = true) ∧
      ∀ u, v.Resembles a u →
        (u.transition F.radio.recorded a event).1 = (v.transition F.radio.recorded a event).1 ∧
        Brings F { edits := ds } u (u.transition F.radio.recorded a event).2 ∧
        (v.transition F.radio.recorded a event).2.Resembles a
          (u.transition F.radio.recorded a event).2 := by
  obtain ⟨ds, within, closes, reads⟩ :=
    Registry.advance_local (v.policy F.radio.recorded) event runs
  refine ⟨ds, within, closes, fun u same => ?_⟩
  obtain ⟨advanced, view⟩ := reads u.central.registry same.peer same.closed
  have left : u.transition F.radio.recorded a event =
      ((v.transition F.radio.recorded a event).1,
        { u with central := { u.central with registry := u.central.registry.edit ds } }) := by
    unfold transition
    simp only [same.policy, advanced]
  have edited : (u.central.registry.advance (v.policy F.radio.recorded) a event).2 =
      u.central.registry.edit ds := by rw [advanced]
  rw [left]
  refine ⟨rfl, ⟨?_, fun _ => (List.append_nil _).symm⟩, view, same.settings, same.notify,
    edited ▸ same.closed.advance, edited ▸ same.traced.advance⟩
  simp [Answers.play, Answers.scanAfter]

/-- What settling a peer does is decided on by that peer, whatever else is going on. -/
theorem settle_effect {steps : List Step} {events : List PeerEvent} {v : World (Recorded σ)}
    (runs : v.central.registry.Runs a held) (near : ∀ step ∈ steps, step.Local held) :
    ∃ e : Effect, Confined F e ⟨a, held, none⟩ v (·.settle F.radio.recorded a steps events) ∧
      ((∃ step ∈ steps, step.resumes = true) → e.resumes = true) := by
  fun_induction settle F.radio.recorded a steps events v with
  | case1 events v step steps r ih =>
    obtain ⟨first, rest⟩ := List.forall_mem_cons.1 near
    have runs : r.2.central.registry.Runs a held := by
      rw [registry_execute]
      exact runs
    obtain ⟨e, ⟨within, complete, brings⟩, resumes⟩ := ih runs rest
    refine ⟨(Effect.ofStep a step).andThen e, ⟨(Effect.within_ofStep first).andThen within,
      Effect.Complete.andThen (fun _ _ => by simp [Effect.ofStep]) complete, fun u same => ?_⟩, ?_⟩
    · rw [settle, fst_execute first u v]
      exact (brings_execute first u).trans (brings _ (same.execute first)) complete
    · rintro ⟨step', mem, up⟩
      rcases List.mem_cons.1 mem with rfl | mem
      · simp [Effect.andThen, Effect.ofStep, up]
      · simp [Effect.andThen, resumes ⟨step', mem, up⟩]
  | case2 v event events r ih =>
    obtain ⟨ds, edits, closes, transitions⟩ := transition_effect (F := F) event runs
    obtain ⟨e, ⟨within, complete, brings⟩, resumes⟩ :=
      ih runs.advance (Registry.local_advance runs)
    have first : Effect.Within ⟨a, held, none⟩ { edits := ds } := ⟨edits, fun _ _ => rfl, by simp⟩
    refine ⟨Effect.andThen { edits := ds } e, ⟨first.andThen within,
      Effect.Complete.andThen (fun _ still d hd => ?_) complete, fun u same => ?_⟩, by simp⟩
    · by_contra closed
      have up := resumes (closes ⟨d, hd, by simpa using closed⟩)
      simp [still] at up
    · obtain ⟨steps, brought, after⟩ := transitions u same
      rw [settle, steps]
      exact brought.trans (brings _ after) complete
  | case3 v =>
    refine ⟨{}, confined_nothing fun u _ => ?_, by simp⟩
    rw [settle]

/-- What driving a peer does is decided on by that peer, whatever else is going on. -/
theorem drive_effect (event : PeerEvent) {w : World (Recorded σ)}
    (runs : w.central.registry.Runs a held) :
    ∃ e : Effect, Confined F e ⟨a, held, none⟩ w (·.drive F.radio.recorded a event) := by
  have none : ∀ step ∈ ([] : List Step), step.Local held := by simp
  obtain ⟨e, confined, -⟩ := settle_effect runs none
  exact ⟨e, confined⟩

end World

end RadioCentral
