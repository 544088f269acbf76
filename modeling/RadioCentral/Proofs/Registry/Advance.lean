import RadioCentral.Proofs.Peer.Moves
import RadioCentral.Registry.Lemmas

/-!
What an event does to the registry: it is passed over, the peer of its address goes on, or that peer
and its handle are taken out.
-/
namespace RadioCentral.Registry

theorem find?_filter_ne {a b : Address} (other : b ≠ a) (peers : List Peer) :
    (peers.filter fun p => decide (p.address ≠ a)).find? (fun p => decide (p.address = b)) =
      peers.find? fun p => decide (p.address = b) := by
  rw [List.find?_filter]
  congr 1
  funext q
  by_cases hq : q.address = b <;> simp [hq, other]

theorem get?_remove_ne {r : Registry} {a b : Address} (h : b ≠ a) :
    (r.remove a).2.get? b = r.get? b := by
  unfold remove
  cases here : r.get? a with
  | none => rfl
  | some p => exact find?_filter_ne h r.peers

/-- The peers of other addresses do not notice a replacement. -/
theorem filter_overwrite (q : Peer) (peers : List Peer) :
    (overwrite q peers).filter (fun p => decide (p.address ≠ q.address)) =
      peers.filter fun p => decide (p.address ≠ q.address) := by
  induction peers with
  | nil => rfl
  | cons x xs ih =>
    by_cases same : x.address = q.address
    · rw [overwrite, if_pos same, List.filter_cons_of_neg (by simp), List.filter_cons_of_neg (by simp [same])]
    · rw [overwrite, if_neg same, List.filter_cons_of_pos (by simpa using same),
        List.filter_cons_of_pos (by simpa using same), ih]

theorem remove_replace {r : Registry} {p q : Peer} (here : r.get? q.address = some p)
    (handle : q.handle = p.handle) :
    ((r.replace q).remove q.address).2 = (r.remove q.address).2 := by
  unfold remove
  rw [get?_replace_self here, here]
  simp only [replace, filter_overwrite, handle]

theorem fst_takeHandle {r : Registry} {a : Address} {p : Peer} (here : r.get? a = some p) :
    (r.takeHandle a).1 = p.handle := by
  cases held : p.handle <;> simp only [takeHandle, here, held]

/-- A peer goes with its handle, whether or not the handle was taken before. -/
theorem remove_takeHandle (r : Registry) (a : Address) :
    ((r.takeHandle a).2.remove a).2 = (r.remove a).2 := by
  cases here : r.get? a with
  | none => simp only [takeHandle, here]
  | some p =>
    cases held : p.handle with
    | none => simp only [takeHandle, here, held]
    | some h =>
      obtain rfl := address_of_get? here
      let bare : Peer := { p with handle := none }
      have taken : (r.replace bare).get? p.address = some bare := get?_replace_self (q := bare) here
      have after : (r.takeHandle p.address).2 =
          { r.replace bare with index := r.index.filter fun entry => entry.1 ≠ h } := by
        simp only [takeHandle, here, held, bare]
      have there : ({ r.replace bare with
          index := r.index.filter fun entry => entry.1 ≠ h } : Registry).get? p.address =
            some bare := taken
      have peers := filter_overwrite bare r.peers
      rw [after]
      simp only [remove, there, here, held]
      simp only [bare] at peers ⊢
      simpa [replace] using peers

theorem carryOut_kept {a : Address} {handle : Option Handle} {actions : List Action} {r : Registry}
    (release : .release ∉ actions) (forget : .forget ∉ actions) (more : List Action) :
    r.carryOut a handle (actions ++ more) =
      (actions.map (.run · handle) ++ (r.carryOut a handle more).1, (r.carryOut a handle more).2) := by
  induction actions with
  | nil => rfl
  | cons action actions ih =>
    simp only [List.mem_cons, not_or] at release forget
    cases action <;> first
      | exact absurd rfl release.1
      | exact absurd rfl forget.1
      | simp only [List.cons_append, carryOut, ih release.2 forget.2, List.map_cons, List.nil_append]

/-- The end of a connection takes out the peer and gives its handle back. -/
theorem carryOut_finish {r : Registry} {p q : Peer} (here : r.get? q.address = some p)
    (handle : q.handle = p.handle) :
    (r.replace q).carryOut q.address p.handle p.finish.2 =
      (p.handle.toList.map .release ++
        [.run .reportDisconnected p.handle, .run .resumeScanning p.handle],
        (r.remove q.address).2) := by
  have taken := fst_takeHandle (get?_replace_self here)
  have gone := remove_replace here handle
  cases held : p.handle with
  | none =>
    simp only [Peer.finish, held, carryOut, Option.isSome_none, Bool.false_eq_true, ↓reduceIte,
      List.nil_append, gone, Option.toList_none, List.map_nil]
    rfl
  | some h =>
    have forgotten := remove_takeHandle (r.replace q) q.address
    rw [handle, held] at taken
    simp only [Peer.finish, held, carryOut, Option.isSome_some, ↓reduceIte, List.cons_append,
      List.nil_append, taken, forgotten, gone]

/-- An attempt that no route could issue is the end of its peer. -/
theorem advance_abandoned {r : Registry} {a : Address} {p : Peer} (here : r.get? a = some p)
    (phase : p.phase = .connecting) (bare : p.handle = none) (policy : LinkPolicy) :
    r.advance policy a .connectFailed =
      ([.run .reportDisconnected none, .run .resumeScanning none], (r.remove a).2) := by
  obtain rfl := address_of_get? here
  let failed : Peer := { p with phase := .disconnected, subscribed := ∅ }
  have gone := carryOut_finish (q := failed) here rfl
  simp only [bare] at gone
  simp only [advance, here, Peer.apply, Peer.react, Peer.during, phase, ↓reduceIte, bare]
  exact gone

/-- Puts a peer back after a move; the attempt of a ready peer is over. -/
def putBack (a : Address) (q : Peer) (r : Registry) : Registry :=
  if q.phase = .ready then (r.replace q).markReady a else r.replace q

@[simp] theorem peers_putBack (a : Address) (q : Peer) (r : Registry) :
    (r.putBack a q).peers = (r.replace q).peers := by
  unfold putBack
  split <;> rfl

@[simp] theorem index_putBack (a : Address) (q : Peer) (r : Registry) :
    (r.putBack a q).index = r.index := by
  unfold putBack
  split <;> rfl

theorem mem_connecting_putBack {a b : Address} {q : Peer} {r : Registry} :
    b ∈ (r.putBack a q).connecting ↔ b ∈ r.connecting ∧ (q.phase = .ready → b ≠ a) := by
  unfold putBack
  split
  · rename_i ready
    simp [markReady, replace, ready]
  · rename_i other
    simp [replace, other]

/-- What becomes of an event at the peer of an address, with the steps left to be done. -/
inductive Advance (policy : LinkPolicy) (a : Address) (event : PeerEvent) (r : Registry) :
    List Step → Registry → Prop where
  | ignored (why : ∀ p, r.get? a = some p → p.react policy event = .refused p) :
      Advance policy a event r [] r
  | kept {p q : Peer} {actions : List Action} (here : r.get? a = some p)
      (moved : p.Proceeds policy event q actions) :
      Advance policy a event r (actions.map (.run · p.handle)) (r.putBack a q)
  | ended {p : Peer} {before : List Action} (here : r.get? a = some p)
      (ended : p.Ends event before) :
      Advance policy a event r
        (before.map (.run · p.handle) ++ (p.handle.toList.map .release ++
          [.run .reportDisconnected p.handle, .run .resumeScanning p.handle]))
        (r.remove a).2

section

variable {policy : LinkPolicy} {a : Address} {event : PeerEvent} {r : Registry} {p : Peer}

theorem advance_of_proceeds {q : Peer} {actions : List Action} (here : r.get? a = some p)
    (next : p.react policy event = .taken (q, actions)) (moved : p.Proceeds policy event q actions) :
    r.advance policy a event = (actions.map (.run · p.handle), r.putBack a q) := by
  have done : (r.putBack a q).carryOut a p.handle (actions ++ []) = _ :=
    carryOut_kept moved.kept_actions.1 moved.kept_actions.2 []
  simp only [List.append_nil, carryOut] at done
  simp only [advance, here, Peer.apply, next]
  exact done

theorem advance_of_ends {q : Peer} {before : List Action} (here : r.get? a = some p)
    (next : p.react policy event = .taken (q, before ++ p.finish.2)) (ended : p.Ends event before)
    (phase : q.phase = .disconnected) (address : q.address = p.address) (handle : q.handle = p.handle) :
    r.advance policy a event =
      (before.map (.run · p.handle) ++ (p.handle.toList.map .release ++
        [.run .reportDisconnected p.handle, .run .resumeScanning p.handle]), (r.remove a).2) := by
  obtain rfl : q.address = a := address.trans (address_of_get? here)
  have gone := carryOut_finish here handle
  simp only [advance, here, Peer.apply, next, phase, reduceCtorEq, ↓reduceIte]
  rw [carryOut_kept ended.kept_actions.1 ended.kept_actions.2, gone]

/-- An event is refused, or the peer goes on, or its connection ends. -/
theorem react_cases (policy : LinkPolicy) (event : PeerEvent) (o : Option Peer) :
    (∀ p, o = some p → p.react policy event = .refused p) ∨
      (∃ p q actions, o = some p ∧ p.react policy event = .taken (q, actions) ∧
        p.Proceeds policy event q actions) ∨
      ∃ p q before, o = some p ∧ p.react policy event = .taken (q, before ++ p.finish.2) ∧
        p.Ends event before ∧ q.phase = .disconnected ∧ q.address = p.address ∧ q.handle = p.handle := by
  cases o with
  | none => exact Or.inl fun p hp => by cases hp
  | some p =>
    cases next : p.react policy event with
    | refused q =>
      obtain rfl := Peer.unchanged_of_refused next
      refine Or.inl fun p' hp' => ?_
      obtain rfl := Option.some.inj hp'
      exact next
    | taken s =>
      obtain ⟨q, actions⟩ := s
      rcases Peer.moves_of_taken next with moved | ⟨before, ended, rfl, rest⟩
      · exact Or.inr (Or.inl ⟨p, q, actions, rfl, next, moved⟩)
      · exact Or.inr (Or.inr ⟨p, q, before, rfl, next, ended, rest⟩)

end

theorem advance_spec (policy : LinkPolicy) (a : Address) (event : PeerEvent) (r : Registry) :
    r.Advance policy a event (r.advance policy a event).1 (r.advance policy a event).2 := by
  rcases react_cases policy event (r.get? a) with refused | ⟨p, q, actions, here, next, moved⟩ |
    ⟨p, q, before, here, next, ended, phase, address, handle⟩
  · rw [advance_of_refused refused]
    exact .ignored refused
  · rw [advance_of_proceeds here next moved]
    exact .kept here moved
  · rw [advance_of_ends here next ended phase address handle]
    exact .ended here ended

/-- Steps act on the handle of the peer they are for, for as long as it is there. -/
def Linked (r : Registry) (a : Address) (steps : List Step) : Prop :=
  ∀ p, r.get? a = some p → ∀ action handle, .run action handle ∈ steps → handle = p.handle

end RadioCentral.Registry
