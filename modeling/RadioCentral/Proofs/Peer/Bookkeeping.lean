import RadioCentral.Proofs.Peer.Moves

/-!
What a peer keeps count of in each phase, for as long as it is there.
-/
namespace RadioCentral

namespace UuidSet

theorem isEmpty_empty : (∅ : UuidSet).isEmpty = true := rfl

theorem isEmpty_insertAll {us : List Uuid} {s : UuidSet} :
    (s.insertAll us).isEmpty = true ↔ us = [] ∧ s.isEmpty = true := by
  simp only [isEmpty_iff, mem_insertAll, not_or, forall_and, List.eq_nil_iff_forall_not_mem]

theorem exists_mem_of_isEmpty {s : UuidSet} (h : s.isEmpty = false) : ∃ u, u ∈ s :=
  List.exists_mem_of_ne_nil s.toList fun empty => by simp [isEmpty, empty] at h

end UuidSet

namespace Peer

/-- Targets come with the services, enable writes are waited for while subscribing and disable writes
while disconnecting, and at no other time. -/
structure Sound (p : Peer) : Prop where
  untargeted : p.phase.rank ≤ Phase.discovering.rank → p.notifyTargets = []
  enabling : p.pendingEnable.isEmpty = false ↔ p.phase = .subscribing
  disabling : p.phase ≠ .disconnecting → p.pendingDisable.isEmpty = true

theorem sound_connecting (a : Address) : Sound { address := a, phase := .connecting } :=
  ⟨fun _ => rfl, by simp [UuidSet.isEmpty_empty], fun _ => rfl⟩

theorem Sound.withHandle {p : Peer} (hp : p.Sound) (h : Option Handle) : { p with handle := h }.Sound :=
  ⟨hp.untargeted, hp.enabling, hp.disabling⟩

theorem Sound.enabling_isEmpty {p : Peer} (hp : p.Sound) (other : p.phase ≠ .subscribing) :
    p.pendingEnable.isEmpty = true := by
  simpa using mt hp.enabling.1 other

/-- There is something to switch off exactly when there are notify targets. -/
theorem Sound.leaving_isEmpty {p : Peer} (hp : p.Sound) (away : p.phase ≠ .disconnecting) :
    p.leaving.pendingDisable.isEmpty = true ↔ p.notifyTargets = [] := by
  simp [leaving, UuidSet.isEmpty_insertAll, hp.disabling away]

theorem Subscribed.sound {policy : LinkPolicy} {p q : Peer} {event : PeerEvent} (hp : p.Sound)
    (h : p.Subscribed policy event q) :
    q.pendingEnable.isEmpty = true ∧ q.pendingDisable.isEmpty = true := by
  cases h with
  | nothingWanted phase =>
    exact ⟨hp.enabling_isEmpty (by simp [phase]), hp.disabling (by simp [phase])⟩
  | lastEnabled phase _ last => exact ⟨last, hp.disabling (by simp [phase])⟩

theorem Proceeds.sound {policy : LinkPolicy} {p q : Peer} {event : PeerEvent} {actions : List Action}
    (hp : p.Sound) (h : p.Proceeds policy event q actions) : q.Sound := by
  have idle := hp.enabling_isEmpty
  cases h with
  | request phase | linkUp phase =>
    refine ⟨fun _ => hp.untargeted (by simp [phase, Phase.rank]), ?_, fun _ => hp.disabling (by simp [phase])⟩
    simp [idle (by simp [phase])]
  | @subscribe cs phase targets =>
    refine ⟨by simp [subscribing, Phase.rank], ?_, fun _ => hp.disabling (by simp [phase])⟩
    have some : ((p.found policy cs).subscribing).pendingEnable.isEmpty ≠ true := by
      simp [subscribing, found, UuidSet.isEmpty_insertAll, targets]
    exact ⟨fun _ => rfl, fun _ => by simpa using some⟩
  | reject phase =>
    exact ⟨by simp [Phase.rank], by simp [idle (by simp [phase])], fun other => absurd rfl other⟩
  | negotiate done | ready done =>
    obtain ⟨noEnable, noDisable⟩ := done.sound hp
    exact ⟨by simp [Phase.rank], by simp [noEnable], fun _ => noDisable⟩
  | negotiated phase | unnegotiated phase =>
    exact ⟨by simp [Phase.rank], by simp [idle (by simp [phase])], fun _ => hp.disabling (by simp [phase])⟩
  | leave =>
    exact ⟨by simp [leaving, Phase.rank], by simp [leaving, UuidSet.isEmpty_empty], fun other => absurd rfl other⟩
  | note phase => exact ⟨hp.untargeted, hp.enabling, hp.disabling⟩
  | @enabled u phase more =>
    refine ⟨hp.untargeted, ⟨fun _ => phase, fun _ => ?_⟩, hp.disabling⟩
    by_cases pending : u ∈ p.pendingEnable
    · exact more pending
    · obtain ⟨v, hv⟩ := UuidSet.exists_mem_of_isEmpty (hp.enabling.2 phase)
      have kept : v ∈ p.pendingEnable.erase u :=
        UuidSet.mem_erase.2 ⟨hv, fun same => pending (same ▸ hv)⟩
      exact Bool.eq_false_iff.2 fun empty => UuidSet.isEmpty_iff.1 empty v kept
  | settled phase =>
    exact ⟨hp.untargeted, hp.enabling, fun other => absurd phase other⟩
  | late => exact hp

end Peer

end RadioCentral
