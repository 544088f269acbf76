import Mathlib.Data.List.Induction
import RadioCentral.Proofs.Peer.Bookkeeping

/-!
The course of one peer by itself. Events are applied to it one after the other, each under a policy of
its own, and its handle may be put in or taken out at any time. What an accepted event does is again
one of the moves; the induction at the end carries a property along with them.
-/
namespace RadioCentral

theorem UuidSet.eq_empty_of_isEmpty {s : UuidSet} (h : s.isEmpty = true) : s = ∅ := by
  obtain ⟨us, ascending⟩ := s
  obtain rfl : us = [] := by simpa [UuidSet.isEmpty] using h
  rfl

theorem UuidSet.ne_empty_iff {s : UuidSet} : s ≠ ∅ ↔ s.isEmpty = false :=
  ⟨fun some => Bool.eq_false_iff.2 (mt eq_empty_of_isEmpty some), fun some none => by
    rw [none, isEmpty_empty] at some
    cases some⟩

theorem Phase.ne_of_rank_lt {a b : Phase} (later : a.rank < b.rank) : a ≠ b :=
  fun same => Nat.ne_of_lt later (congrArg rank same)

namespace Peer

inductive Input where
  | apply (policy : LinkPolicy) (event : PeerEvent)
  | attach (h : Handle)
  | detach
  deriving DecidableEq

structure Stage where
  policy : LinkPolicy
  event : PeerEvent
  transition : Transition
  deriving DecidableEq

def new (a : Address) : Peer := { address := a }

def answer? (p : Peer) : Input → Option (Except InvalidTransition Transition)
  | .apply policy event => some (p.apply policy event).1
  | .attach _ | .detach => none

def feed (p : Peer) : Input → Peer
  | .apply policy event => (p.apply policy event).2
  | .attach h => { p with handle := some h }
  | .detach => { p with handle := none }

def stage? (p : Peer) : Input → Option Stage
  | .apply policy event => (p.apply policy event).1.toOption.map (⟨policy, event, ·⟩)
  | .attach _ | .detach => none

def fed (p : Peer) (inputs : List Input) : Peer := inputs.foldl feed p

def stages (p : Peer) : List Input → List Stage
  | [] => []
  | i :: inputs => (p.stage? i).toList ++ stages (p.feed i) inputs

/-- How each event was answered, and the peer after each input. -/
def course (p : Peer) : List Input → List (Option (Except InvalidTransition Transition) × Peer)
  | [] => []
  | i :: inputs => (p.answer? i, p.feed i) :: course (p.feed i) inputs

@[simp] theorem fed_append (p : Peer) (inputs more : List Input) :
    p.fed (inputs ++ more) = (p.fed inputs).fed more := List.foldl_append

theorem stages_append (p : Peer) (inputs more : List Input) :
    p.stages (inputs ++ more) = p.stages inputs ++ (p.fed inputs).stages more := by
  induction inputs generalizing p with
  | nil => rfl
  | cons i inputs ih => simp only [List.cons_append, stages, ih, List.append_assoc, fed, List.foldl_cons]

theorem course_append (p : Peer) (inputs more : List Input) :
    p.course (inputs ++ more) = p.course inputs ++ (p.fed inputs).course more := by
  induction inputs generalizing p with
  | nil => rfl
  | cons i inputs ih => simp only [List.cons_append, course, ih, fed, List.foldl_cons]

def spent (p : Peer) : Peer :=
  { p with phase := .disconnected, pendingEnable := ∅, pendingDisable := ∅, subscribed := ∅ }

section

variable {policy : LinkPolicy} {p : Peer} {event : PeerEvent}

theorem react_of_leaves {disconnect : Bool} (leaves : p.Leaves event disconnect) :
    p.react policy event = .taken (p.beginTeardown disconnect) := by
  cases leaves with
  | linkDown live | requested live =>
    cases phase : p.phase <;> simp_all [react, leave, Phase.isEstablishing]
  | undiscovered phase | unsubscribed phase => simp [react, during, phase]

theorem Ends.rank {before : List Action} (ended : p.Ends event before) :
    p.phase.rank < Phase.disconnected.rank := by
  cases ended with
  | connectFailed phase | linkDown phase | lastSettled phase | disableRefused phase =>
    simp [phase, Phase.rank]
  | leave leaves => exact Nat.lt_of_le_of_lt leaves.rank (by simp [Phase.rank])

/-- The end of a connection clears what was waited for. -/
theorem react_of_ends {before : List Action} (hp : p.Sound) (ended : p.Ends event before) :
    p.react policy event = .taken (p.spent, before ++ p.finish.2) := by
  have clear : ∀ q : Peer, q.pendingEnable.isEmpty = true → q.pendingDisable.isEmpty = true →
      q.finish.1 = q.spent := fun q noEnable noDisable => by
    simp only [finish, spent, UuidSet.eq_empty_of_isEmpty noEnable,
      UuidSet.eq_empty_of_isEmpty noDisable]
  cases ended with
  | connectFailed phase =>
    have gone := clear p (hp.enabling_isEmpty (by simp [phase])) (hp.disabling (by simp [phase]))
    simp only [react, during, phase, ↓reduceIte, List.nil_append, ← gone]
  | leave leaves settled =>
    rw [react_of_leaves leaves, beginTeardown_eq, if_pos settled, clear p.leaving rfl settled]
    rfl
  | linkDown phase settled =>
    have gone := clear p (hp.enabling_isEmpty (by simp [phase])) settled
    simp only [react, phase, settled, ↓reduceIte, List.nil_append, ← gone]
  | @lastSettled u phase pending last =>
    have gone := clear { p with pendingDisable := p.pendingDisable.erase u }
      (hp.enabling_isEmpty (by simp [phase])) last
    simp only [react, during, settleDisable, phase, pending, last, and_self, ↓reduceIte]
    exact congrArg Response.taken (Prod.ext gone rfl)
  | disableRefused phase =>
    have gone := clear { p with pendingDisable := ∅ } (hp.enabling_isEmpty (by simp [phase])) rfl
    simp only [react, during, phase, ↓reduceIte]
    exact congrArg Response.taken (Prod.ext gone rfl)

theorem sound_spent (p : Peer) : p.spent.Sound :=
  ⟨by simp [spent, Phase.rank], by simp [spent, UuidSet.isEmpty_empty], fun _ => rfl⟩

theorem sound_new (a : Address) : (new a).Sound :=
  ⟨fun _ => rfl, by simp [new, UuidSet.isEmpty_empty], fun _ => rfl⟩

/-- What becomes of an input at a peer: the event is refused, or the peer goes on, or its connection
ends, or only its handle changes. -/
inductive Fed (p : Peer) : Input → Option Stage → Peer → Prop where
  | refused {policy : LinkPolicy} {event : PeerEvent} (next : p.react policy event = .refused p) :
      Fed p (.apply policy event) none p
  | proceeded {policy : LinkPolicy} {event : PeerEvent} {q : Peer} {actions : List Action}
      (moved : p.Proceeds policy event q actions) :
      Fed p (.apply policy event) (some ⟨policy, event, p, q, actions⟩) q
  | ended {policy : LinkPolicy} {event : PeerEvent} {before : List Action} (ended : p.Ends event before) :
      Fed p (.apply policy event) (some ⟨policy, event, p, p.spent, before ++ p.finish.2⟩) p.spent
  | handled {i : Input} (h : Option Handle) : Fed p i none { p with handle := h }

theorem fed_spec (hp : p.Sound) (i : Input) : p.Fed i (p.stage? i) (p.feed i) := by
  cases i with
  | attach h => exact .handled (some h)
  | detach => exact .handled none
  | apply policy event =>
    cases next : p.react policy event with
    | refused q =>
      obtain rfl := unchanged_of_refused next
      simp only [stage?, feed, apply_of_refused next]
      exact .refused next
    | taken r =>
      obtain ⟨q, actions⟩ := r
      simp only [stage?, feed, apply_of_taken next]
      rcases moves_of_taken next with moved | ⟨before, ended, -⟩
      · exact .proceeded moved
      · obtain ⟨rfl, rfl⟩ : p.spent = q ∧ before ++ p.finish.2 = actions := by
          simpa using (react_of_ends hp ended).symm.trans next
        exact .ended ended

theorem Sound.feed (hp : p.Sound) (i : Input) : (p.feed i).Sound := by
  have fed := fed_spec hp i
  generalize p.stage? i = stage at fed
  generalize p.feed i = q at fed ⊢
  cases fed with
  | refused => exact hp
  | proceeded moved => exact moved.sound hp
  | ended => exact sound_spent p
  | handled h => exact hp.withHandle h

end

theorem Sound.fed {p : Peer} (hp : p.Sound) (inputs : List Input) : (p.fed inputs).Sound := by
  induction inputs generalizing p with
  | nil => exact hp
  | cons i inputs ih => exact ih (hp.feed i)

/-- Induction over the course of a new peer. A property may depend on the events accepted so far. -/
theorem course_induction {P : List Stage → Peer → Prop} {a : Address} (start : P [] (new a))
    (proceeded : ∀ {past policy p event q actions}, p.Sound → p.Proceeds policy event q actions →
      P past p → P (past ++ [⟨policy, event, p, q, actions⟩]) q)
    (ended : ∀ {past policy p event before}, p.Sound → p.Ends event before →
      P past p → P (past ++ [⟨policy, event, p, p.spent, before ++ p.finish.2⟩]) p.spent)
    (handled : ∀ {past p} (h : Option Handle), P past p → P past { p with handle := h })
    (inputs : List Input) : P ((new a).stages inputs) ((new a).fed inputs) := by
  induction inputs using List.reverseRecOn with
  | nil => exact start
  | append_singleton inputs i ih =>
    have hp : ((new a).fed inputs).Sound := (sound_new a).fed inputs
    have fed := fed_spec hp i
    have last : ((new a).fed inputs).stages [i] = (((new a).fed inputs).stage? i).toList :=
      List.append_nil _
    rw [stages_append, fed_append, last]
    show P _ (((new a).fed inputs).feed i)
    generalize ((new a).fed inputs).stage? i = stage at fed ⊢
    generalize ((new a).fed inputs).feed i = q at fed ⊢
    cases fed with
    | refused => simpa using ih
    | proceeded moved => exact proceeded hp moved ih
    | ended final => exact ended hp final ih
    | handled h => simpa using handled h ih

end Peer

end RadioCentral
