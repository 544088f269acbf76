import RadioCentral.Proofs.Peer.Course
import RadioCentral.Proofs.Registry.Coherence

/-!
The life of a connection only goes forward. An accepted event leaves the phase and asks for nothing, or
leads to a later phase and asks for something; so every phase is entered once at most, and what is said
only on entering a phase is said at most once in a life.
-/
namespace RadioCentral

theorem Phase.rank_inj {a b : Phase} (h : a.rank = b.rank) : a = b := by
  cases a <;> cases b <;> first | rfl | cases h

namespace Action

def tellsConnected : Action → Bool
  | .reportConnected _ => true
  | .pauseScanning | .resumeScanning | .connect | .discoverServices | .subscribe _ | .unsubscribe _
  | .requestUnitSize _ | .invalidateCache | .disconnect | .release | .forget | .reportDisconnected => false

def closes : Action → Bool
  | .release | .forget | .reportDisconnected => true
  | .pauseScanning | .resumeScanning | .connect | .discoverServices | .subscribe _ | .unsubscribe _
  | .requestUnitSize _ | .invalidateCache | .disconnect | .reportConnected _ => false

end Action

namespace Transition

def Enters (phase : Phase) (t : Transition) : Prop := t.before.phase ≠ phase ∧ t.after.phase = phase

instance (phase : Phase) (t : Transition) : Decidable (t.Enters phase) :=
  inferInstanceAs (Decidable (_ ∧ _))

/-- The phase stays and nothing is asked for, or a later phase is reached and something is. -/
def Onward (t : Transition) : Prop :=
  (t.after.phase = t.before.phase ∧ t.actions = []) ∨
    (t.before.phase.rank < t.after.phase.rank ∧ t.actions ≠ [])

/-- That a peer is connected is said on becoming ready, and its connection is closed as it ends; the
handle goes back first, if there is one. At no other time is any of this asked for. -/
structure Timely (t : Transition) : Prop where
  connected : t.actions.countP Action.tellsConnected = if t.Enters .ready then 1 else 0
  closed : t.Enters .disconnected → ∃ before, (∀ x ∈ before, x.closes = false) ∧
    t.actions = before ++ (if t.before.handle.isSome then [.release] else []) ++
      [.forget, .reportDisconnected, .resumeScanning]
  kept : ¬ t.Enters .disconnected → ∀ x ∈ t.actions, x.closes = false

theorem Onward.rank {t : Transition} (h : t.Onward) : t.before.phase.rank ≤ t.after.phase.rank := by
  rcases h with ⟨same, -⟩ | ⟨later, -⟩
  · exact Nat.le_of_eq (congrArg Phase.rank same.symm)
  · exact Nat.le_of_lt later

def Marks (kind : Action → Bool) (phase : Phase) : Prop :=
  ∀ t : Transition, t.Timely → t.actions.countP kind ≤ if t.Enters phase then 1 else 0

theorem marks_tellsConnected : Marks Action.tellsConnected .ready := fun _ h => Nat.le_of_eq h.connected

/-- Each of the actions that close a connection is there once at most when it ends. -/
theorem marks_of_closes {x : Action} (closes : x.closes = true) : Marks (· == x) .disconnected := by
  intro t h
  have free : ∀ actions : List Action, (∀ y ∈ actions, y.closes = false) → actions.countP (· == x) = 0 :=
    fun actions none => List.countP_eq_zero.2 fun y hy same => by
      rw [eq_of_beq same] at hy
      simp [none x hy] at closes
  by_cases entered : t.Enters .disconnected
  · obtain ⟨before, none, all⟩ := h.closed entered
    rw [if_pos entered, all, List.countP_append, List.countP_append, free before none]
    cases x <;> cases closes <;> cases t.before.handle <;> simp
  · exact Nat.le_of_eq (by rw [if_neg entered, free t.actions (h.kept entered)])

end Transition

namespace Peer

variable {policy : LinkPolicy} {p q : Peer} {event : PeerEvent} {actions : List Action}

theorem kind_leavingActions {disconnect : Bool} :
    ∀ x ∈ p.leavingActions disconnect, x.tellsConnected = false ∧ x.closes = false := by
  intro x mem
  rcases List.mem_append.1 mem with target | last
  · obtain ⟨c, -, rfl⟩ := List.mem_map.1 target
    exact ⟨rfl, rfl⟩
  · split at last
    · obtain rfl := List.mem_singleton.1 last
      exact ⟨rfl, rfl⟩
    · cases last

theorem Subscribed.rank (done : p.Subscribed policy event q) :
    p.phase.rank ≤ Phase.subscribing.rank := by
  cases done with
  | nothingWanted phase | lastEnabled phase => simp [phase, Phase.rank]

/-- A peer that goes on to another phase asks for something. -/
theorem Proceeds.onward (hp : p.Sound) (moved : p.Proceeds policy event q actions) :
    Transition.Onward ⟨p, q, actions⟩ := by
  cases moved with
  | request phase | linkUp phase | reject phase | negotiated phase | unnegotiated phase =>
    exact Or.inr ⟨by simp [phase, Phase.rank], by simp⟩
  | subscribe phase targets => exact Or.inr ⟨by simp [phase, subscribing, Phase.rank], by simpa using targets⟩
  | negotiate done | ready done =>
    exact Or.inr ⟨Nat.lt_of_le_of_lt done.rank (by simp [Phase.rank]), by simp⟩
  | leave leaves pending =>
    have targets : p.notifyTargets ≠ [] := fun none => by
      rw [(hp.leaving_isEmpty leaves.away).2 none] at pending
      cases pending
    exact Or.inr ⟨Nat.lt_of_le_of_lt leaves.rank (by simp [leaving, Phase.rank]),
      by simp [leavingActions, targets]⟩
  | note | enabled | settled | late => exact Or.inl ⟨rfl, rfl⟩

theorem Proceeds.countP_tellsConnected (moved : p.Proceeds policy event q actions) :
    actions.countP Action.tellsConnected = if Transition.Enters .ready ⟨p, q, actions⟩ then 1 else 0 := by
  cases moved with
  | request | linkUp | reject => simp [Transition.Enters, Action.tellsConnected]
  | subscribe => simp [Transition.Enters, subscribing, Action.tellsConnected, List.countP_eq_zero]
  | negotiate => simp [Transition.Enters, Action.tellsConnected]
  | ready done =>
    have unready : p.phase ≠ .ready := Phase.ne_of_rank_lt (Nat.lt_of_le_of_lt done.rank (by decide))
    exact (if_pos (c := Transition.Enters .ready _) ⟨unready, rfl⟩).symm
  | negotiated phase | unnegotiated phase =>
    exact (if_pos (c := Transition.Enters .ready _) ⟨by simp [phase], rfl⟩).symm
  | @leave _ disconnect =>
    have none : (p.leavingActions disconnect).countP Action.tellsConnected = 0 :=
      List.countP_eq_zero.2 fun x hx => by simp [(kind_leavingActions x hx).1]
    simp [Transition.Enters, leaving, none]
  | note | enabled | settled | late => simp [Transition.Enters]

theorem Proceeds.closes_eq_false (moved : p.Proceeds policy event q actions) :
    ∀ x ∈ actions, x.closes = false := by
  cases moved with
  | leave => exact fun x hx => (kind_leavingActions x hx).2
  | subscribe | request | linkUp | reject | negotiate | ready | negotiated | unnegotiated | note | enabled
  | settled | late => simp [Action.closes]

theorem Proceeds.timely (moved : p.Proceeds policy event q actions) :
    Transition.Timely ⟨p, q, actions⟩ where
  connected := moved.countP_tellsConnected
  closed entered := absurd entered.2 (moved.phase_ne_disconnected entered.1)
  kept _ := moved.closes_eq_false

theorem Ends.kind {before : List Action} (ended : p.Ends event before) :
    ∀ x ∈ before, x.tellsConnected = false ∧ x.closes = false := by
  cases ended with
  | leave => exact kind_leavingActions
  | connectFailed | linkDown | lastSettled | disableRefused => simp

theorem Ends.onward {before : List Action} (ended : p.Ends event before) :
    Transition.Onward ⟨p, p.spent, before ++ p.finish.2⟩ :=
  Or.inr ⟨ended.rank, by simp [finish]⟩

theorem Ends.timely {before : List Action} (ended : p.Ends event before) :
    Transition.Timely ⟨p, p.spent, before ++ p.finish.2⟩ where
  connected := by
    have none : before.countP Action.tellsConnected = 0 :=
      List.countP_eq_zero.2 fun x hx => by simp [(ended.kind x hx).1]
    have last : p.finish.2.countP Action.tellsConnected = 0 := by
      cases holds : p.handle <;> simp [finish, holds, Action.tellsConnected]
    simp [Transition.Enters, spent, none, last]
  closed _ := ⟨before, fun x hx => (ended.kind x hx).2, by simp [finish]⟩
  kept still := absurd ⟨Phase.ne_of_rank_lt ended.rank, rfl⟩ still

/-- What an accepted event amounts to, seen from outside. -/
theorem stage_spec (hp : p.Sound) (i : Input) :
    (p.stage? i = none ∧ (p.feed i).phase = p.phase) ∨
      ∃ s, p.stage? i = some s ∧ s.transition.before = p ∧ s.transition.after = p.feed i ∧
        (p.feed i).handle = p.handle ∧ s.transition.Onward ∧ s.transition.Timely := by
  have fed := fed_spec hp i
  generalize p.stage? i = stage at fed ⊢
  generalize p.feed i = q at fed ⊢
  cases fed with
  | refused | handled => exact Or.inl ⟨rfl, rfl⟩
  | proceeded moved => exact Or.inr ⟨_, rfl, rfl, rfl, moved.handle_eq, moved.onward hp, moved.timely⟩
  | ended final => exact Or.inr ⟨_, rfl, rfl, rfl, rfl, final.onward, final.timely⟩

def said (p : Peer) (inputs : List Input) : List Action :=
  (p.stages inputs).flatMap fun s => s.transition.actions

/-- What is asked for only on entering a phase is asked for once at most, and never again after it. -/
theorem countP_said_le {kind : Action → Bool} {phase : Phase} (marks : Transition.Marks kind phase)
    (hp : p.Sound) (inputs : List Input) :
    (p.said inputs).countP kind ≤ if p.phase.rank < phase.rank then 1 else 0 := by
  induction inputs generalizing p with
  | nil => simp [said, stages]
  | cons i inputs ih =>
    have rest := ih (hp.feed i)
    rcases stage_spec hp i with ⟨none, same⟩ | ⟨s, some, before, after, -, onward, timely⟩
    · have all : p.said (i :: inputs) = (p.feed i).said inputs := by simp [said, stages, none]
      rwa [all, ← same]
    · have all : p.said (i :: inputs) = s.transition.actions ++ (p.feed i).said inputs := by
        simp [said, stages, some]
      have first := marks s.transition timely
      have later := onward.rank
      rw [before, after] at later
      rw [all, List.countP_append]
      by_cases entered : s.transition.Enters phase
      · obtain ⟨away, there⟩ := entered
        rw [before] at away
        rw [after] at there
        have early : p.phase.rank < phase.rank :=
          Nat.lt_of_le_of_ne (there ▸ later) fun same => away (Phase.rank_inj same)
        rw [there, if_neg (Nat.lt_irrefl _)] at rest
        rw [if_pos early]
        split at first <;> omega
      · rw [if_neg entered] at first
        split at rest <;> split <;> omega

/-- A connection that has ended has no place for any event. -/
theorem react_of_disconnected (gone : p.phase = .disconnected) : p.react policy event = .refused p := by
  cases event <;> simp [react, during, leave, onUnitSize, gone]

/-- A peer that a registry keeps goes on there as it does by itself. -/
theorem get?_advance_of_taken {r : Registry} {a : Address} {actions : List Action} (here : r.get? a = some p)
    (next : p.react policy event = .taken (q, actions)) :
    (r.advance policy a event).2.get? a = if q.phase = .disconnected then none else some q := by
  rcases moves_of_taken next with moved | ⟨before, ended, rfl, phase, address, handle⟩
  · rw [Registry.advance_of_proceeds here next moved, Registry.get?_putBack here moved, if_pos rfl]
    have there : p.phase ≠ .disconnected := fun gone => by
      rw [react_of_disconnected gone] at next
      cases next
    rw [if_neg (moved.phase_ne_disconnected there)]
  · rw [Registry.advance_of_ends here next ended phase address handle, Registry.get?_remove_self,
      if_pos phase]

/-- The life of a connection goes forward only, and a refused event changes nothing. This is said of
every peer that events under any policies and changes of its handle can lead to, and of every further
event. The peer is the one a registry keeps. Over the whole life, that the peer is connected is reported
at most once, and so are its release, its removal and the report of its end. -/
theorem life_goes_forward (a : Address) (inputs : List Input) (policy : LinkPolicy) (event : PeerEvent) :
    let p := (new a).fed inputs
    (match p.apply policy event with
      | (.error refusal, left) => refusal = ⟨p.address, p.phase, event⟩ ∧ left = p ∧
        p.feed (.apply policy event) = p ∧ ∀ r : Registry, r.get? a = some p → r.advance policy a event = ([], r)
      | (.ok t, left) => t.before = p ∧ t.after = left ∧ t.after = p.feed (.apply policy event) ∧
        t.after.handle = p.handle ∧ t.Onward ∧ t.Timely ∧
        ∀ r : Registry, r.get? a = some p → (r.advance policy a event).2.get? a =
          if t.after.phase = .disconnected then none else some t.after) ∧
      ((new a).said inputs).countP Action.tellsConnected ≤ 1 ∧ ((new a).said inputs).count .release ≤ 1 ∧
      ((new a).said inputs).count .forget ≤ 1 ∧ ((new a).said inputs).count .reportDisconnected ≤ 1 := by
  intro p
  have hp : p.Sound := (sound_new a).fed inputs
  have once : ∀ {kind phase}, Transition.Marks kind phase → ((new a).said inputs).countP kind ≤ 1 :=
    fun marks => Nat.le_trans (countP_said_le marks (sound_new a) inputs) (by split <;> simp)
  refine ⟨?_, once Transition.marks_tellsConnected, once (Transition.marks_of_closes rfl),
    once (Transition.marks_of_closes rfl), once (Transition.marks_of_closes rfl)⟩
  have spec := stage_spec hp (.apply policy event)
  cases answer : p.react policy event with
  | refused q =>
    obtain rfl := unchanged_of_refused answer
    simp only [feed, apply_of_refused answer]
    refine ⟨trivial, trivial, trivial, fun r here => Registry.advance_of_refused fun q there => ?_⟩
    obtain rfl : p = q := Option.some.inj (here.symm.trans there)
    exact answer
  | taken result =>
    obtain ⟨q, actions⟩ := result
    simp only [apply_of_taken answer]
    have stage : p.stage? (.apply policy event) = some ⟨policy, event, p, q, actions⟩ := by
      rw [stage?, apply_of_taken answer]
      rfl
    rcases spec with ⟨none, -⟩ | ⟨s, some, -, after, handle, onward, timely⟩
    · rw [none] at stage
      cases stage
    · obtain rfl := Option.some.inj (some.symm.trans stage)
      exact ⟨trivial, trivial, after, (congrArg Peer.handle after).trans handle, onward, timely,
        fun r here => get?_advance_of_taken here answer⟩

example :
    let c : Characteristic := { uuid := Uuid.expand 0x2a37, properties := .notify }
    let policy : LinkPolicy := { notify := .ofList [c.uuid], unitSize := some 512 }
    ((new ⟨"a"⟩).stages ([.connectRequested, .linkUp, .servicesDiscovered (some [c]), .enabled c.uuid,
        .unitSizeReported 247, .linkUp, .disconnectRequested, .disableSettled c.uuid].map
          (.apply policy))).map (·.transition.after.phase) =
      [.connecting, .discovering, .subscribing, .negotiating, .ready, .disconnecting, .disconnected] := by
  decide

end Peer

end RadioCentral
