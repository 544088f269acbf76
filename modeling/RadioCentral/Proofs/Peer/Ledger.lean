import RadioCentral.Proofs.Delivery
import RadioCentral.Proofs.Peer.Course

/-!
The books of one peer, whatever happens to it. The three sets and the two lists it keeps agree with each
other, with its phase, and with the one discovery it ever takes over.
-/
namespace RadioCentral

/-- As long as the last one is not taken out, a set is empty after an erasure exactly if it was before. -/
theorem UuidSet.isEmpty_erase_iff {s : UuidSet} {u : Uuid}
    (more : u ∈ s → (s.erase u).isEmpty = false) : (s.erase u).isEmpty = true ↔ s.isEmpty = true := by
  refine ⟨fun empty => isEmpty_iff.2 fun v hv => ?_,
    fun empty => isEmpty_iff.2 fun v hv => isEmpty_iff.1 empty v (mem_erase.1 hv).1⟩
  by_cases mem : u ∈ s
  · simp [more mem] at empty
  · exact isEmpty_iff.1 empty v (mem_erase.2 ⟨hv, fun same => mem (same ▸ hv)⟩)

namespace Peer

variable {policy : LinkPolicy} {p q : Peer} {event : PeerEvent} {actions before : List Action}
  {past : List Stage}

/-! ### What is waited for -/

structure Pending (p : Peer) : Prop where
  enabling : ∀ u ∈ p.pendingEnable, ∃ t ∈ p.notifyTargets, t.uuid = u
  disabling : ∀ u ∈ p.pendingDisable, ∃ t ∈ p.notifyTargets, t.uuid = u
  unsettled : p.phase = .disconnecting → (p.pendingDisable.isEmpty = true ↔ p.notifyTargets = [])

/-- While nothing is waited for there is nothing to say of the targets. -/
theorem pending_of_isEmpty (enabling : p.pendingEnable.isEmpty = true)
    (disabling : p.pendingDisable.isEmpty = true)
    (unsettled : p.phase = .disconnecting → p.notifyTargets = []) : p.Pending :=
  ⟨fun u hu => absurd hu (UuidSet.isEmpty_iff.1 enabling u),
    fun u hu => absurd hu (UuidSet.isEmpty_iff.1 disabling u),
    fun phase => ⟨fun _ => unsettled phase, fun _ => disabling⟩⟩

theorem pending_new (a : Address) : (new a).Pending :=
  pending_of_isEmpty rfl rfl fun phase => by cases phase

theorem pending_spent (p : Peer) : p.spent.Pending :=
  pending_of_isEmpty rfl rfl fun phase => by cases phase

theorem Pending.proceeded (hp : p.Sound) (pending : p.Pending)
    (moved : p.Proceeds policy event q actions) : q.Pending := by
  have idle := hp.enabling_isEmpty
  have settled := hp.disabling
  cases moved with
  | request phase | linkUp phase | negotiated phase | unnegotiated phase =>
    exact pending_of_isEmpty (idle (by simp [phase])) (settled (by simp [phase])) (by simp)
  | @subscribe cs phase =>
    have noEnable := UuidSet.isEmpty_iff.1 (idle (by simp [phase]))
    have noDisable := UuidSet.isEmpty_iff.1 (settled (by simp [phase]))
    refine ⟨fun u hu => ?_, fun u hu => absurd hu (noDisable u), fun leaving => by cases leaving⟩
    simpa [subscribing, found, noEnable u] using hu
  | reject phase =>
    exact pending_of_isEmpty (idle (by simp [phase])) (settled (by simp [phase]))
      fun _ => hp.untargeted (by simp [phase, Phase.rank])
  | negotiate done | ready done =>
    obtain ⟨noEnable, noDisable⟩ := done.sound hp
    exact pending_of_isEmpty noEnable noDisable (by simp)
  | leave leaves =>
    have noDisable := UuidSet.isEmpty_iff.1 (settled leaves.away)
    refine ⟨fun u hu => absurd hu (UuidSet.not_mem_empty u), fun u hu => ?_,
      fun _ => hp.leaving_isEmpty leaves.away⟩
    simpa [leaving, noDisable u] using hu
  | note phase => exact ⟨pending.enabling, pending.disabling, pending.unsettled⟩
  | @enabled u phase =>
    exact ⟨fun v hv => pending.enabling v (UuidSet.mem_erase.1 hv).1, pending.disabling, pending.unsettled⟩
  | settled phase more =>
    exact ⟨pending.enabling, fun v hv => pending.disabling v (UuidSet.mem_erase.1 hv).1,
      fun _ => (UuidSet.isEmpty_erase_iff more).trans (pending.unsettled phase)⟩
  | late => exact pending

/-! ### What was discovered -/

def Stage.discovery? (s : Stage) : Option (LinkPolicy × List Characteristic) :=
  match s.event with
  | .servicesDiscovered (some (c :: cs)) => some (s.policy, c :: cs)
  | _ => none

def discoveries (past : List Stage) : List (LinkPolicy × List Characteristic) :=
  past.filterMap Stage.discovery?

theorem discoveries_append (past more : List Stage) :
    discoveries (past ++ more) = discoveries past ++ discoveries more := List.filterMap_append

/-- There is one discovery at most. The peer keeps what it found, and of it the targets in their order. -/
inductive Recalls (p : Peer) : List (LinkPolicy × List Characteristic) → Prop where
  | nothing (discovered : p.discovered = none) (targets : p.notifyTargets = []) : Recalls p []
  | once {policy : LinkPolicy} {cs : List Characteristic} (some : cs ≠ []) (discovered : p.discovered = cs)
      (targets : p.notifyTargets = wanted policy cs) : Recalls p [(policy, cs)]

theorem Recalls.congr {found : List (LinkPolicy × List Characteristic)} (recalls : p.Recalls found)
    (same : q.discovered = p.discovered) (targets : q.notifyTargets = p.notifyTargets) :
    q.Recalls found := by
  cases recalls with
  | nothing was targeted => exact .nothing (same.trans was) (targets.trans targeted)
  | once some was targeted => exact .once some (same.trans was) (targets.trans targeted)

/-- A peer that has made a discovery keeps it through any more. -/
theorem Recalls.stays {found more : List (LinkPolicy × List Characteristic)} (recalls : p.Recalls found)
    (later : q.Recalls (found ++ more)) (some : p.discovered ≠ none) :
    q.discovered = p.discovered ∧ q.notifyTargets = p.notifyTargets := by
  cases recalls with
  | nothing was => exact absurd was some
  | once _ was targeted =>
    cases later with
    | once _ same targets => exact ⟨same.trans was.symm, targets.trans targeted.symm⟩

structure Discovered (past : List Stage) (p : Peer) : Prop where
  recalls : p.Recalls (discoveries past)
  early : p.phase.rank ≤ Phase.discovering.rank → discoveries past = []

/-- The moves that leave what was discovered as it is. -/
theorem Discovered.still {s : Stage} (discovered : Discovered past p) (nothing : s.discovery? = none)
    (rank : p.phase.rank ≤ q.phase.rank) (same : q.discovered = p.discovered)
    (targets : q.notifyTargets = p.notifyTargets) : Discovered (past ++ [s]) q := by
  have none : discoveries (past ++ [s]) = discoveries past := by simp [discoveries, nothing]
  exact ⟨none ▸ discovered.recalls.congr same targets,
    fun low => none.trans (discovered.early (Nat.le_trans rank low))⟩

/-- The one move that takes services over. -/
theorem Discovered.taken {cs : List Characteristic} {t : Transition} (discovered : Discovered past p)
    (phase : p.phase = .discovering) (some : cs ≠ []) (later : Phase.discovering.rank < q.phase.rank)
    (same : q.discovered = cs) (targets : q.notifyTargets = wanted policy cs) :
    Discovered (past ++ [⟨policy, .servicesDiscovered cs, t⟩]) q := by
  have none : discoveries past = [] := discovered.early (Nat.le_of_eq (congrArg Phase.rank phase))
  have one : discoveries (past ++ [⟨policy, .servicesDiscovered cs, t⟩]) = [(policy, cs)] := by
    obtain ⟨c, rest, rfl⟩ := List.exists_cons_of_ne_nil some
    rw [discoveries_append, none]
    rfl
  exact ⟨one ▸ .once some same targets, fun low => absurd low (Nat.not_le_of_lt later)⟩

theorem Leaves.discovery {disconnect : Bool} {t : Transition} (leaves : p.Leaves event disconnect) :
    Stage.discovery? ⟨policy, event, t⟩ = none := by
  cases leaves <;> rfl

theorem Late.discovery {t : Transition} (late : p.Late event) :
    Stage.discovery? ⟨policy, event, t⟩ = none := by
  cases late <;> rfl

theorem Ends.discovery {t : Transition} (ended : p.Ends event before) :
    Stage.discovery? ⟨policy, event, t⟩ = none := by
  cases ended with
  | leave leaves => exact leaves.discovery
  | connectFailed | linkDown | lastSettled | disableRefused => rfl

theorem Discovered.subscribed {phase : Phase} {t : Transition} (discovered : Discovered past p)
    (done : p.Subscribed policy event q) (later : Phase.subscribing.rank < phase.rank) :
    Discovered (past ++ [⟨policy, event, t⟩]) { q with phase := phase } := by
  cases done with
  | nothingWanted now some => exact discovered.taken now some (Nat.lt_of_succ_lt later) rfl rfl
  | lastEnabled now =>
    exact discovered.still rfl (Nat.le_of_lt (by simpa only [now] using later)) rfl rfl

theorem Discovered.proceeded (discovered : Discovered past p)
    (moved : p.Proceeds policy event q actions) :
    Discovered (past ++ [⟨policy, event, p, q, actions⟩]) q := by
  have rank := moved.rank
  cases moved with
  | subscribe phase targets =>
    refine discovered.taken phase (fun none => targets ?_) (by simp [subscribing, Phase.rank]) rfl rfl
    simp [wanted, none]
  | @reject cs phase nothing =>
    have none : Stage.discovery? ⟨policy, .servicesDiscovered cs, p, { p with phase := .disconnecting },
        [.invalidateCache, .disconnect]⟩ = none := by
      rcases cs with _ | _ | _
      · rfl
      · rfl
      · cases nothing
    exact discovered.still none rank rfl rfl
  | negotiate done | ready done => exact discovered.subscribed done (by simp [Phase.rank])
  | leave leaves => exact discovered.still leaves.discovery rank rfl rfl
  | late _ late => exact discovered.still late.discovery rank rfl rfl
  | request | linkUp | negotiated | unnegotiated | note | enabled | settled =>
    exact discovered.still rfl rank rfl rfl

/-! ### The books -/

/-- Everything a peer keeps count of, after the events it has accepted. -/
structure Ledger (past : List Stage) (p : Peer) : Prop where
  enabling : p.pendingEnable ≠ ∅ ↔ p.phase = .subscribing
  enabled : ∀ u ∈ p.pendingEnable, ∃ t ∈ p.notifyTargets, t.uuid = u
  delivering : p.Delivering
  disabling : p.phase ≠ .disconnecting → p.pendingDisable = ∅
  disabled : ∀ u ∈ p.pendingDisable, ∃ t ∈ p.notifyTargets, t.uuid = u
  unsettled : p.phase = .disconnecting → (p.pendingDisable ≠ ∅ ↔ p.notifyTargets ≠ [])
  recalls : p.Recalls (discoveries past)

theorem delivering_spent (p : Peer) : p.spent.Delivering := fun u => by simp [spent, Phase.delivers]

theorem kept_through_course (a : Address) (inputs : List Input) :
    ((new a).fed inputs).Pending ∧ ((new a).fed inputs).Delivering ∧
      Discovered ((new a).stages inputs) ((new a).fed inputs) := by
  refine course_induction (P := fun past p => p.Pending ∧ p.Delivering ∧ Discovered past p)
    ?start ?proceeded ?ended ?handled inputs
  case start =>
    exact ⟨pending_new a, fun u => by simp [new, Phase.delivers], .nothing rfl rfl, fun _ => rfl⟩
  case proceeded =>
    rintro past policy p event q actions hp moved ⟨pending, delivering, discovered⟩
    exact ⟨pending.proceeded hp moved, moved.delivering delivering, discovered.proceeded moved⟩
  case ended =>
    rintro past policy p event before hp ended ⟨-, -, discovered⟩
    exact ⟨pending_spent p, delivering_spent p,
      discovered.still ended.discovery (Nat.le_of_lt ended.rank) rfl rfl⟩
  case handled =>
    rintro past p h ⟨pending, delivering, discovered⟩
    exact ⟨⟨pending.enabling, pending.disabling, pending.unsettled⟩, delivering,
      discovered.recalls.congr rfl rfl, discovered.early⟩

/-- The books of a peer agree with each other, whatever events came, whatever policies they came with,
and whenever its handle was put in or taken out. What was once discovered stays as it is. -/
theorem books_agree (a : Address) (inputs : List Input) :
    let p := (new a).fed inputs
    Ledger ((new a).stages inputs) p ∧
      ∀ more, p.discovered ≠ none →
        (p.fed more).discovered = p.discovered ∧ (p.fed more).notifyTargets = p.notifyTargets := by
  intro p
  have hp : p.Sound := (sound_new a).fed inputs
  obtain ⟨pending, delivering, discovered⟩ := kept_through_course a inputs
  refine ⟨⟨UuidSet.ne_empty_iff.trans hp.enabling, pending.enabling, delivering,
    fun away => UuidSet.eq_empty_of_isEmpty (hp.disabling away), pending.disabling, fun phase => ?_,
    discovered.recalls⟩, fun more some => ?_⟩
  · rw [UuidSet.ne_empty_iff, ← Bool.not_eq_true]
    exact not_congr (pending.unsettled phase)
  · have later := (kept_through_course a (inputs ++ more)).2.2.recalls
    rw [fed_append, stages_append, discoveries_append] at later
    exact discovered.recalls.stays later some

end Peer

end RadioCentral
