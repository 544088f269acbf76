import RadioCentral.Proofs.Peer.Bookkeeping
import RadioCentral.Proofs.Registry.Filing

/-!
When the peers, the index and the open attempts of a registry agree, and that every operation keeps
them so.
-/
namespace RadioCentral

namespace Peer

structure Live (p : Peer) : Prop where
  sound : p.Sound
  begun : p.phase ≠ .idle
  there : p.phase ≠ .disconnected
  holding : p.phase ≠ .connecting → p.handle.isSome

namespace Proceeds

variable {policy : LinkPolicy} {p q : Peer} {event : PeerEvent} {actions : List Action}

theorem begun (hp : p.phase ≠ .idle) (h : p.Proceeds policy event q actions) : q.phase ≠ .idle := by
  cases h with
  | note | enabled | settled | late => exact hp
  | _ => simp [subscribing, leaving]

/-- Without targets a connecting peer has nothing to switch off, so it goes on only by the link. -/
theorem of_connecting (hp : p.Sound) (phase : p.phase = .connecting)
    (h : p.Proceeds policy event q actions) : event = .linkUp ∨ q.phase = .connecting := by
  cases h with
  | linkUp => exact Or.inl rfl
  | note => exact Or.inr phase
  | leave leaves pending =>
    have none := hp.untargeted (by simp [phase, Phase.rank])
    rw [(hp.leaving_isEmpty leaves.away).2 none] at pending
    cases pending
  | negotiate done | ready done =>
    cases done with
    | nothingWanted other | lastEnabled other => simp [phase] at other
  | request other | subscribe other | reject other | negotiated other | unnegotiated other
  | enabled other | settled other | late other => simp [phase] at other

theorem live (hp : p.Live) (h : p.Proceeds policy event q actions)
    (linked : event = .linkUp → p.handle.isSome) : q.Live where
  sound := h.sound hp.sound
  begun := h.begun hp.begun
  there := h.phase_ne_disconnected hp.there
  holding := by
    intro other
    rw [h.handle_eq]
    by_cases phase : p.phase = .connecting
    · rcases h.of_connecting hp.sound phase with up | same
      · exact linked up
      · exact absurd same other
    · exact hp.holding phase

/-- No move leads back to a phase before `ready`. -/
theorem establishing (hp : p.phase ≠ .idle) (h : p.Proceeds policy event q actions)
    (hq : q.phase.isEstablishing = true) : p.phase.isEstablishing = true := by
  cases h with
  | request phase => exact absurd phase hp
  | linkUp phase | subscribe phase => rw [phase]; rfl
  | negotiate done =>
    cases done with
    | nothingWanted phase | lastEnabled phase => rw [phase]; rfl
  | note | enabled | settled | late => exact hq
  | reject | ready | negotiated | unnegotiated | leave => simp [leaving, Phase.isEstablishing] at hq

end Proceeds

end Peer

namespace Registry

/-- The peers, the index of handles and the open attempts tell the same story. -/
structure Orderly (r : Registry) : Prop extends Filed r where
  unready : ∀ a p, a ∈ r.connecting → r.get? a = some p → p.phase ≠ .ready
  underway : ∀ a p, r.get? a = some p → p.phase.isEstablishing = true → a ∈ r.connecting
  live : ∀ a p, r.get? a = some p → p.Live

/-- An open attempt is of a peer that is not ready. -/
theorem Orderly.peer_of_attempt {r : Registry} (hr : r.Orderly) {a : Address} (open' : a ∈ r.connecting) :
    ∃ p, r.get? a = some p ∧ p.phase ≠ .ready := by
  obtain ⟨p, here⟩ := contains_iff.1 (hr.attempted a open')
  exact ⟨p, here, hr.unready a p open' here⟩

theorem orderly_empty : Orderly {} where
  toFiled := filed_empty
  unready a p open' := absurd open' List.not_mem_nil
  underway a p hp := by simp [get?] at hp
  live a p hp := by simp [get?] at hp

theorem get?_putBack {r : Registry} {a : Address} {p q : Peer} {policy : LinkPolicy}
    {event : PeerEvent} {actions : List Action} (here : r.get? a = some p)
    (moved : p.Proceeds policy event q actions) (b : Address) :
    (r.putBack a q).get? b = if b = a then some q else r.get? b := by
  obtain rfl : q.address = a := moved.address_eq.trans (address_of_get? here)
  have view : (r.putBack q.address q).get? b = (r.replace q).get? b := by
    simp only [get?, peers_putBack]
  rw [view]
  exact get?_replace here b

theorem get?_advance_ne {policy : LinkPolicy} {a b : Address} {event : PeerEvent} {r : Registry}
    (other : b ≠ a) : (r.advance policy a event).2.get? b = r.get? b := by
  have spec := r.advance_spec policy a event
  generalize (r.advance policy a event).1 = steps at spec
  generalize (r.advance policy a event).2 = after at spec ⊢
  cases spec with
  | ignored => rfl
  | kept here moved =>
    rw [get?_putBack here moved, if_neg other]
  | ended => exact get?_remove_ne other

/-- A peer that is still there after an event has the handle it had. -/
theorem handle_advance {policy : LinkPolicy} {a : Address} {event : PeerEvent} {r : Registry} {q : Peer}
    (there : (r.advance policy a event).2.get? a = some q) :
    ∃ p, r.get? a = some p ∧ q.handle = p.handle := by
  have spec := r.advance_spec policy a event
  generalize (r.advance policy a event).1 = steps at spec
  generalize (r.advance policy a event).2 = after at spec there
  cases spec with
  | ignored => exact ⟨q, there, rfl⟩
  | @kept p s actions here moved =>
    rw [get?_putBack here moved, if_pos rfl] at there
    obtain rfl : s = q := by simpa using there
    exact ⟨p, here, moved.handle_eq⟩
  | ended => simp [get?_remove_self] at there

theorem linked_advance (policy : LinkPolicy) (a : Address) (event : PeerEvent) (r : Registry) :
    (r.advance policy a event).2.Linked a (r.advance policy a event).1 := by
  have spec := r.advance_spec policy a event
  generalize (r.advance policy a event).1 = steps at spec ⊢
  generalize (r.advance policy a event).2 = after at spec ⊢
  intro s hs action handle mem
  cases spec with
  | ignored => cases mem
  | @kept p q actions here moved =>
    rw [get?_putBack here moved, if_pos rfl] at hs
    obtain rfl : q = s := by simpa using hs
    obtain ⟨action', -, same⟩ := List.mem_map.1 mem
    cases same
    exact moved.handle_eq.symm
  | ended => simp [get?_remove_self] at hs

theorem Filed.putBack {r : Registry} (filed : r.Filed) {a : Address} {p q : Peer} (here : r.get? a = some p)
    (address : q.address = p.address) (handle : q.handle = p.handle) : (r.putBack a q).Filed := by
  obtain rfl : q.address = a := address.trans (address_of_get? here)
  have replaced := filed.replace here handle
  unfold Registry.putBack
  split
  · exact replaced.markReady q.address
  · exact replaced

theorem Leads.putBack {r : Registry} {h : Handle} (leads : r.Leads h) {a : Address}
    {p q : Peer} (here : r.get? a = some p) (address : q.address = p.address) (handle : q.handle = p.handle) :
    (r.putBack a q).Leads h := by
  obtain rfl : q.address = a := address.trans (address_of_get? here)
  have replaced := leads.replace here handle
  unfold Registry.putBack
  split <;> exact replaced

theorem Orderly.putBack {r : Registry} (hr : r.Orderly) {a : Address} {p q : Peer}
    {policy : LinkPolicy} {event : PeerEvent} {actions : List Action} (here : r.get? a = some p)
    (moved : p.Proceeds policy event q actions) (linked : event = .linkUp → p.handle.isSome) :
    (r.putBack a q).Orderly := by
  have view := get?_putBack here moved
  constructor
  case toFiled => exact hr.toFiled.putBack here moved.address_eq moved.handle_eq
  case unready =>
    intro b s open' hs
    obtain ⟨before, done⟩ := mem_connecting_putBack.1 open'
    rw [view] at hs
    by_cases hba : b = a
    · obtain rfl : q = s := by simpa [hba] using hs
      exact fun ready => done ready hba
    · exact hr.unready b s before (by simpa [hba] using hs)
  case underway =>
    intro b s hs early
    rw [view] at hs
    refine mem_connecting_putBack.2 ⟨?_, ?_⟩
    · by_cases hba : b = a
      · obtain rfl : q = s := by simpa [hba] using hs
        exact hba ▸ hr.underway a p here (moved.establishing (hr.live a p here).begun early)
      · exact hr.underway b s (by simpa [hba] using hs) early
    · rintro ready rfl
      obtain rfl : q = s := by simpa using hs
      simp [ready, Phase.isEstablishing] at early
  case live =>
    intro b s hs
    rw [view] at hs
    by_cases hba : b = a
    · obtain rfl : q = s := by simpa [hba] using hs
      exact moved.live (hr.live a p here) linked
    · exact hr.live b s (by simpa [hba] using hs)

theorem Orderly.remove {r : Registry} (hr : r.Orderly) (a : Address) : (r.remove a).2.Orderly := by
  cases here : r.get? a with
  | none => simpa only [Registry.remove, here] using hr
  | some p =>
    have attempts : ∀ b, b ∈ (r.remove a).2.connecting ↔ b ∈ r.connecting ∧ b ≠ a := by
      simp [Registry.remove, here]
    have left : ∀ b s, (r.remove a).2.get? b = some s → b ≠ a ∧ r.get? b = some s := by
      intro b s hs
      rw [get?_remove] at hs
      by_cases hb : b = a
      · simp [hb] at hs
      · exact ⟨hb, by simpa [hb] using hs⟩
    constructor
    case toFiled => exact hr.toFiled.remove a
    case unready => exact fun b s open' hs => hr.unready b s ((attempts b).1 open').1 (left b s hs).2
    case underway =>
      intro b s hs early
      obtain ⟨other, there⟩ := left b s hs
      exact (attempts b).2 ⟨hr.underway b s there early, other⟩
    case live => exact fun b s hs => hr.live b s (left b s hs).2

/-- An event keeps a registry orderly; the link comes up only for a peer with a handle. -/
theorem Orderly.advance {r : Registry} (hr : r.Orderly) (policy : LinkPolicy) (a : Address)
    (event : PeerEvent) (linked : event = .linkUp → ∀ p, r.get? a = some p → p.handle.isSome) :
    (r.advance policy a event).2.Orderly := by
  have spec := r.advance_spec policy a event
  generalize (r.advance policy a event).1 = steps at spec
  generalize (r.advance policy a event).2 = after at spec ⊢
  cases spec with
  | ignored => exact hr
  | @kept p _ _ here moved => exact hr.putBack here moved fun up => linked up p here
  | ended => exact hr.remove a

/-- A handle goes to a connecting peer without one. -/
theorem Orderly.attach {r : Registry} (hr : r.Orderly) {a : Address} {p : Peer} {h : Handle}
    (here : r.get? a = some p) (bare : p.handle = none) (phase : p.phase = .connecting) :
    (r.attach a h).2.Orderly := by
  let given : Peer := { p with handle := some h }
  have view : ∀ b, (r.attach a h).2.get? b = if b = a then some given else r.get? b :=
    get?_attach here bare phase
  have attempts : (r.attach a h).2.connecting = r.connecting := by
    rw [attach_eq here bare phase]
    rfl
  constructor
  case toFiled => exact hr.toFiled.attach here bare phase
  case unready =>
    intro b s open' hs
    rw [attempts] at open'
    rw [view] at hs
    by_cases hba : b = a
    · obtain rfl : given = s := by simpa [hba] using hs
      simp [given, phase]
    · exact hr.unready b s open' (by simpa [hba] using hs)
  case underway =>
    intro b s hs early
    rw [attempts]
    rw [view] at hs
    by_cases hba : b = a
    · exact hba ▸ hr.underway a p here (by rw [phase]; rfl)
    · exact hr.underway b s (by simpa [hba] using hs) early
  case live =>
    intro b s hs
    rw [view] at hs
    by_cases hba : b = a
    · obtain rfl : given = s := by simpa [hba] using hs
      have old := hr.live a p here
      exact ⟨old.sound.withHandle _, old.begun, old.there, fun _ => rfl⟩
    · exact hr.live b s (by simpa [hba] using hs)

/-- A registry with a new peer whose connection has been asked for. -/
def enroll (a : Address) (r : Registry) : Registry := r.lodge { address := a, phase := .connecting }

theorem unique_enroll {r : Registry} {a : Address} (unique : r.known.Nodup)
    (unknown : r.contains a = false) : (r.enroll a).known.Nodup :=
  unique_lodge (q := { address := a, phase := .connecting }) unique unknown

@[simp] theorem held_enroll (r : Registry) (a : Address) : (r.enroll a).held = r.held := r.held_lodge rfl

theorem get?_enroll {r : Registry} {a : Address} (unknown : r.contains a = false) (b : Address) :
    (r.enroll a).get? b = if b = a then some { address := a, phase := .connecting } else r.get? b :=
  get?_lodge (q := { address := a, phase := .connecting }) unknown b

/-- A new peer has no handle to act on. -/
theorem linked_enroll {r : Registry} {a : Address} (unknown : r.contains a = false) :
    (r.enroll a).Linked a [.run .pauseScanning none, .run .connect none] := by
  intro p here action handle mem
  rw [get?_enroll unknown, if_pos rfl] at here
  obtain rfl := Option.some.inj here
  simp only [List.mem_cons, Step.run.injEq, List.not_mem_nil, or_false] at mem
  rcases mem with ⟨-, rfl⟩ | ⟨-, rfl⟩ <;> rfl

theorem insertConnecting_eq {r : Registry} {a : Address} (unknown : r.contains a = false) :
    r.insertConnecting a = (true, r.lodge { address := a }) := by
  simp only [insertConnecting, unknown, Bool.false_eq_true, ↓reduceIte, lodge]

/-- Admitting a peer enters it and asks for its connection in one go. -/
theorem advance_insertConnecting {r : Registry} {a : Address} (unknown : r.contains a = false)
    (policy : LinkPolicy) :
    (r.insertConnecting a).2.advance policy a .connectRequested =
      ([.run .pauseScanning none, .run .connect none], r.enroll a) := by
  have others : ∀ x ∈ r.peers ++ ([] : List Peer), x.address ≠ a := by
    simpa [contains, get?, List.find?_eq_none] using unknown
  have here := (get?_lodge (q := { address := a }) unknown a).trans (if_pos rfl)
  have replaced : ((r.lodge { address := a }).replace { address := a, phase := .connecting }).peers =
      r.peers ++ [{ address := a, phase := .connecting }] := peers_replace rfl rfl others
  rw [insertConnecting_eq unknown]
  simp only [advance, here, Peer.apply, Peer.react, Peer.during, ↓reduceIte, carryOut,
    reduceCtorEq, List.singleton_append]
  simp only [replace, Prod.mk.injEq, true_and, enroll, lodge] at replaced ⊢
  rw [replaced]

theorem Orderly.enroll {r : Registry} (hr : r.Orderly) {a : Address}
    (unknown : r.contains a = false) : (r.enroll a).Orderly := by
  have view := get?_enroll unknown
  constructor
  case toFiled => exact hr.toFiled.lodge (q := { address := a, phase := .connecting }) unknown
  case unready =>
    intro b s open' hs
    rw [view] at hs
    by_cases hba : b = a
    · obtain rfl : { address := a, phase := .connecting } = s := by simpa [hba] using hs
      simp
    · exact hr.unready b s (by simpa [Registry.enroll, lodge, hba] using open') (by simpa [hba] using hs)
  case underway =>
    intro b s hs early
    rw [view] at hs
    by_cases hba : b = a
    · simp [Registry.enroll, lodge, hba]
    · exact List.mem_append_left _ (hr.underway b s (by simpa [hba] using hs) early)
  case live =>
    intro b s hs
    rw [view] at hs
    by_cases hba : b = a
    · obtain rfl : { address := a, phase := .connecting } = s := by simpa [hba] using hs
      exact ⟨Peer.sound_connecting a, by simp, by simp, fun other => absurd rfl other⟩
    · exact hr.live b s (by simpa [hba] using hs)

namespace Leads

variable {r : Registry} {a : Address} {h : Handle}

theorem advance (leads : r.Leads h) (policy : LinkPolicy) (a : Address)
    (event : PeerEvent) : (r.advance policy a event).2.Leads h := by
  have spec := r.advance_spec policy a event
  generalize (r.advance policy a event).1 = steps at spec
  generalize (r.advance policy a event).2 = after at spec ⊢
  cases spec with
  | ignored => exact leads
  | kept here moved => exact leads.putBack here moved.address_eq moved.handle_eq
  | ended => exact leads.remove a

theorem enroll (leads : r.Leads h) (unknown : r.contains a = false) : (r.enroll a).Leads h :=
  leads.lodge (q := { address := a, phase := .connecting }) unknown rfl

end Leads

theorem Traced.leads {r : Registry} (hr : r.Traced) (h : Handle) : r.Leads h := fun a p => hr a p h

end Registry

end RadioCentral
