import Mathlib
import RadioCentral.Proofs.Peer.Course
import RadioCentral.Proofs.Run.Recorder

/-!
What the policy of a later event can still decide. Two courses that agree up to the discovery and go on
with the same events are compared. Once the services are there, a policy is read in one place only: with
the confirmation of the last enable write, for the unit size to negotiate.
-/
namespace RadioCentral

namespace Peer

def Input.blind : Input → Input
  | .apply _ event => .apply {} event
  | .attach h => .attach h
  | .detach => .detach

/-- Two inputs that differ in their policy at most. -/
theorem Input.eq_or_of_blind {i i' : Input} (same : i.blind = i'.blind) :
    i = i' ∨ ∃ policy policy' event, i = .apply policy event ∧ i' = .apply policy' event := by
  cases i <;> cases i' <;> simp_all [blind]

/-- The unit size of the policy that comes with the confirmation of the last enable write. -/
def sizeRead? (p : Peer) : Input → Option (Option UInt16)
  | .apply policy (.enabled u) =>
    if p.phase = .subscribing ∧ u ∈ p.pendingEnable ∧ (p.pendingEnable.erase u).isEmpty then
      some policy.unitSize
    else none
  | _ => none

/-- The unit size read first in a course. -/
def sizeSettled? (p : Peer) : List Input → Option (Option UInt16)
  | [] => none
  | i :: inputs => (p.sizeRead? i).or (sizeSettled? (p.feed i) inputs)

variable {policy policy' : LinkPolicy} {p : Peer} {event : PeerEvent}

/-! ### One event -/

theorem beginNegotiation_eq_iff :
    p.beginNegotiation policy = p.beginNegotiation policy' ↔ policy.unitSize = policy'.unitSize := by
  unfold beginNegotiation
  cases policy.unitSize <;> cases policy'.unitSize <;> simp [becomeReady]

theorem confirmEnable_eq_iff {u : Uuid} (phase : p.phase = .subscribing) :
    p.confirmEnable policy u = p.confirmEnable policy' u ↔
      p.sizeRead? (.apply policy (.enabled u)) = p.sizeRead? (.apply policy' (.enabled u)) := by
  by_cases last : u ∈ p.pendingEnable ∧ (p.pendingEnable.erase u).isEmpty
  · simp only [confirmEnable, sizeRead?, phase, last, and_self, ↓reduceIte, beginNegotiation_eq_iff,
      Option.some.injEq]
  · simp only [confirmEnable, sizeRead?, last, and_false, ↓reduceIte]

/-- Past the discovery, two policies are told apart by nothing but the unit size read. -/
theorem react_eq_iff (past : p.phase ≠ .discovering) :
    p.react policy event = p.react policy' event ↔
      p.sizeRead? (.apply policy event) = p.sizeRead? (.apply policy' event) := by
  cases event with
  | servicesDiscovered found => simp [react, during, past, sizeRead?]
  | enabled u =>
    by_cases phase : p.phase = .subscribing
    · simpa [react, during, phase] using confirmEnable_eq_iff phase
    · simp [react, during, phase, sizeRead?]
  | connectRequested | connectFailed | linkUp | linkDown | discoveryRefused | enableFailed
  | negotiationUnavailable | unitSizeReported | disableSettled | disableRefused | disconnectRequested =>
    exact iff_of_true rfl rfl

theorem apply_eq_iff :
    p.apply policy event = p.apply policy' event ↔ p.react policy event = p.react policy' event := by
  refine ⟨fun same => ?_, fun same => by rw [apply, apply, same]⟩
  unfold apply at same
  cases answer : p.react policy event <;> cases answer' : p.react policy' event <;>
    simp_all [Prod.ext_iff]

/-- What becomes of an input, past the discovery, depends on its policy through the unit size read. -/
theorem answered_iff {i i' : Input} (same : i.blind = i'.blind) (past : p.phase ≠ .discovering) :
    (p.answer? i, p.feed i) = (p.answer? i', p.feed i') ↔ p.sizeRead? i = p.sizeRead? i' := by
  rcases Input.eq_or_of_blind same with rfl | ⟨policy, policy', event, rfl, rfl⟩
  · exact iff_of_true rfl rfl
  · rw [← react_eq_iff past, ← apply_eq_iff]
    refine ⟨fun both => ?_, fun answer => ?_⟩
    · exact Prod.ext (Option.some.inj (Prod.mk.inj both).1) (Prod.mk.inj both).2
    · simp only [answer?, feed, answer]

/-- Whether a unit size is read does not depend on the policy. -/
theorem isSome_sizeRead? {i i' : Input} (same : i.blind = i'.blind) :
    (p.sizeRead? i).isSome = (p.sizeRead? i').isSome := by
  rcases Input.eq_or_of_blind same with rfl | ⟨policy, policy', event, rfl, rfl⟩
  · rfl
  · cases event with
    | enabled u => simp only [sizeRead?]; split <;> rfl
    | _ => rfl

/-- With the reading of the unit size the peer has left the phase in which it is read. -/
theorem rank_of_sizeRead? {i : Input} {size : Option UInt16} (read : p.sizeRead? i = some size) :
    Phase.subscribing.rank < (p.feed i).phase.rank := by
  cases i with
  | attach | detach => cases read
  | apply policy event =>
    cases event with
    | enabled u =>
      obtain ⟨phase, last⟩ := (Option.ite_none_right_eq_some.1 read).1
      simp only [feed, apply, react, during, phase, reduceCtorEq, ↓reduceIte, confirmEnable, last, and_self]
      exact rank_beginNegotiation policy _
    | _ => cases read

/-! ### The course -/

theorem rank_feed (p : Peer) (i : Input) : p.phase.rank ≤ (p.feed i).phase.rank := by
  cases i with
  | attach | detach => exact Nat.le_refl _
  | apply policy event =>
    cases answer : p.react policy event with
    | refused q =>
      obtain rfl := unchanged_of_refused answer
      rw [feed, apply_of_refused answer]
    | taken r =>
      rw [feed, apply_of_taken answer]
      rcases (forward_of_taken answer).1 with ⟨same, -⟩ | later
      · exact Nat.le_of_eq (congrArg Phase.rank same.symm)
      · exact Nat.le_of_lt later

/-- No unit size is read any more. -/
theorem sizeSettled?_eq_none (past : Phase.subscribing.rank < p.phase.rank) (inputs : List Input) :
    p.sizeSettled? inputs = none := by
  induction inputs generalizing p with
  | nil => rfl
  | cons i inputs ih =>
    have now : p.sizeRead? i = none := by
      unfold sizeRead?
      split
      · exact if_neg fun read => by simp [read.1] at past
      · rfl
    rw [sizeSettled?, now, Option.none_or, ih (Nat.lt_of_lt_of_le past (rank_feed p i))]

/-- Past the discovery two courses of the same events are equal exactly if they settle on the same unit
size, or on none. -/
theorem course_eq_iff {inputs inputs' : List Input} (past : Phase.discovering.rank < p.phase.rank)
    (same : inputs.map Input.blind = inputs'.map Input.blind) :
    p.course inputs = p.course inputs' ↔ p.sizeSettled? inputs = p.sizeSettled? inputs' := by
  induction inputs generalizing inputs' p with
  | nil =>
    obtain rfl := List.map_eq_nil_iff.1 same.symm
    exact iff_of_true rfl rfl
  | cons i inputs ih =>
    obtain ⟨i', inputs', rfl, first, rest⟩ := List.map_eq_cons_iff.1 same.symm
    have there : p.phase ≠ .discovering := (Phase.ne_of_rank_lt past).symm
    have heads := answered_iff first.symm there
    have tails := ih (Nat.lt_of_lt_of_le past (rank_feed p i)) rest.symm
    simp only [course, sizeSettled?, List.cons.injEq, heads]
    by_cases read : p.sizeRead? i = p.sizeRead? i'
    · have feeds : p.feed i = p.feed i' := (Prod.mk.inj (heads.2 read)).2
      rw [← read, ← feeds, tails, and_iff_right rfl]
      cases now : p.sizeRead? i with
      | none => simp only [Option.none_or]
      | some size =>
        have none := sizeSettled?_eq_none (rank_of_sizeRead? now)
        simp only [none, Option.some_or]
    · refine iff_of_false (fun both => read both.1) fun settled => read ?_
      have alike := isSome_sizeRead? (p := p) first
      cases now : p.sizeRead? i <;> cases now' : p.sizeRead? i' <;> simp_all

theorem rank_of_discovery {found : Option (List Characteristic)} {t : Transition}
    (accepted : (p.apply policy (.servicesDiscovered found)).1 = .ok t) :
    Phase.discovering.rank < t.after.phase.rank := by
  obtain ⟨before, q, actions⟩ := t
  rcases moves_of_taken (taken_of_accepted accepted).1 with moved | ⟨-, -, -, phase, -⟩
  · cases moved with
    | subscribe | reject | negotiate | ready => simp [Phase.rank]
    | leave leaves => cases leaves
    | late _ late => cases late
  · exact Nat.lt_of_lt_of_eq (by decide) (congrArg Phase.rank phase).symm

/-- Two courses agree up to an accepted discovery and go on with the same events, under policies of their
own. They stay equal, in answers and records, exactly if the last enable write is confirmed under the
same unit size in both, or never. Nothing else of the later policies is ever read, and nothing at all if
no enable write is waited for after the discovery. -/
theorem courses_after_discovery (p : Peer) (early late late' : List Input) (policy : LinkPolicy)
    (found : Option (List Characteristic)) (t : Transition)
    (accepted : ((p.fed early).apply policy (.servicesDiscovered found)).1 = .ok t)
    (same : late.map Input.blind = late'.map Input.blind) :
    let before := early ++ [.apply policy (.servicesDiscovered found)]
    (p.course (before ++ late) = p.course (before ++ late') ↔
        t.after.sizeSettled? late = t.after.sizeSettled? late') ∧
      (t.after.phase ≠ .subscribing → p.course (before ++ late) = p.course (before ++ late')) := by
  intro before
  have past := rank_of_discovery accepted
  have after : p.fed before = t.after := by
    rw [fed_append]
    show (p.fed early).feed (.apply policy (.servicesDiscovered found)) = t.after
    exact (taken_of_accepted accepted).2
  have courses : p.course (before ++ late) = p.course (before ++ late') ↔
      t.after.sizeSettled? late = t.after.sizeSettled? late' := by
    rw [course_append p before late, course_append p before late', List.append_cancel_left_eq, after]
    exact course_eq_iff past same
  refine ⟨courses, fun unsubscribed => courses.2 ?_⟩
  have later : Phase.subscribing.rank < t.after.phase.rank := by
    cases phase : t.after.phase <;> simp_all [Phase.rank]
  rw [sizeSettled?_eq_none later, sizeSettled?_eq_none later]

end Peer

namespace Encounter

def wanting : LinkPolicy := { notify := .ofList [target.uuid], unitSize := some 512 }

def linked : List Peer.Input := [.apply wanting .connectRequested, .apply wanting .linkUp]

def discovery : PeerEvent := .servicesDiscovered (some [target])

def confirming (policy : LinkPolicy) : List Peer.Input := [.apply policy (.enabled target.uuid)]

def hushed : List (Happening SimulatedRadio) :=
  history.take 5 ++ .radioChanges (fun s => { s with flags := { s.flags with negotiationSupported := false } }) ::
    (history.drop 5).take 1

end Encounter

namespace Peer

open Encounter

/-- What is wanted after the discovery does not matter, as long as the unit size stays. -/
theorem course_of_unwanted :
    (∃ t, (((new ⟨"a"⟩).fed linked).apply wanting discovery).1 = .ok t) ∧
      (confirming wanting).map Input.blind = (confirming { unitSize := some 512 }).map Input.blind ∧
      (new ⟨"a"⟩).course (linked ++ [.apply wanting discovery] ++ confirming wanting) =
        (new ⟨"a"⟩).course (linked ++ [.apply wanting discovery] ++ confirming { unitSize := some 512 }) := by
  have accepted : ∃ t, (((new ⟨"a"⟩).fed linked).apply wanting discovery).1 = .ok t := ⟨_, rfl⟩
  refine ⟨accepted, rfl, ?_⟩
  obtain ⟨t, taken⟩ := accepted
  refine (courses_after_discovery (new ⟨"a"⟩) linked (confirming wanting) (confirming { unitSize := some 512 })
    wanting (some [target]) t taken rfl).1.2 ?_
  rfl

end Peer

namespace World

open Encounter

/-- One answer under two policies: with the unit size of the discovery the peer negotiates, without it it
is ready at once. The policy changes so when the radio stops to negotiate in between. -/
theorem negotiation_dropped_midway :
    let before := linked ++ [.apply wanting discovery]
    (∃ t, (((Peer.new ⟨"a"⟩).fed linked).apply wanting discovery).1 = .ok t) ∧
      (confirming wanting).map Peer.Input.blind =
        (confirming { wanting with unitSize := none }).map Peer.Input.blind ∧
      (Peer.new ⟨"a"⟩).course (before ++ confirming wanting) ≠
        (Peer.new ⟨"a"⟩).course (before ++ confirming { wanting with unitSize := none }) ∧
      ((outcome SimulatedRadio.radio settings {} (history.take 6)).central.registry.get? ⟨"a"⟩).map
        (·.phase) = some .negotiating ∧
      ((outcome SimulatedRadio.radio settings {} hushed).central.registry.get? ⟨"a"⟩).map
        (·.phase) = some .ready := by
  refine ⟨⟨_, rfl⟩, rfl, fun same => ?_, by cbv, by cbv⟩
  have phases := congrArg (List.map fun answered => answered.2.phase) same
  revert phases
  decide

end World

end RadioCentral
