import RadioCentral.Registry

/-!
What the operations of the registry do to the view `get?`, and how far the peer of an address still
has to go. `advance` brings that peer forward or leaves nothing to be done.
-/
namespace RadioCentral.Registry

theorem address_of_get? {r : Registry} {a : Address} {p : Peer} (h : r.get? a = some p) :
    p.address = a := by
  simpa using List.find?_some h

/-- Putting the peer of an address in its own place changes nothing. -/
theorem overwrite_self {p : Peer} {peers : List Peer}
    (here : peers.find? (fun q => decide (q.address = p.address)) = some p) : overwrite p peers = peers := by
  induction peers with
  | nil => rfl
  | cons q qs ih =>
    by_cases same : q.address = p.address
    · rw [List.find?_cons_of_pos (by simpa using same)] at here
      rw [overwrite, if_pos same, Option.some.inj here]
    · rw [List.find?_cons_of_neg (by simpa using same)] at here
      rw [overwrite, if_neg same, ih here]

theorem find?_overwrite_self {p q : Peer} {peers : List Peer}
    (here : peers.find? (fun x => decide (x.address = q.address)) = some p) :
    (overwrite q peers).find? (fun x => decide (x.address = q.address)) = some q := by
  induction peers with
  | nil => cases here
  | cons x xs ih =>
    by_cases same : x.address = q.address
    · rw [overwrite, if_pos same, List.find?_cons_of_pos (by simp)]
    · rw [List.find?_cons_of_neg (by simpa using same)] at here
      rw [overwrite, if_neg same, List.find?_cons_of_neg (by simpa using same), ih here]

theorem find?_overwrite_ne {q : Peer} {a : Address} (other : a ≠ q.address) (peers : List Peer) :
    (overwrite q peers).find? (fun x => decide (x.address = a)) =
      peers.find? fun x => decide (x.address = a) := by
  induction peers with
  | nil => rfl
  | cons x xs ih =>
    by_cases same : x.address = q.address
    · rw [overwrite, if_pos same, List.find?_cons_of_neg (by simpa using other.symm),
        List.find?_cons_of_neg (by simpa [same] using other.symm)]
    · rw [overwrite, if_neg same, List.find?_cons, List.find?_cons, ih]

theorem get?_replace_self {r : Registry} {p q : Peer} (h : r.get? q.address = some p) :
    (r.replace q).get? q.address = some q := find?_overwrite_self h

theorem get?_replace_ne {r : Registry} {q : Peer} {a : Address} (h : a ≠ q.address) :
    (r.replace q).get? a = r.get? a := find?_overwrite_ne h r.peers

theorem replace_self {r : Registry} {a : Address} {p : Peer} (here : r.get? a = some p) :
    r.replace p = r := by
  obtain rfl := address_of_get? here
  rw [replace, overwrite_self here]

/-- The addresses in the order of their admission. -/
def known (r : Registry) : List Address := r.peers.map (·.address)

theorem addresses_perm (order : Order) (r : Registry) : (r.addresses order).Perm r.known :=
  (order.perm r.peers).map _

@[simp] theorem get?_markReady (r : Registry) (a b : Address) : (r.markReady a).get? b = r.get? b := rfl

theorem get?_remove_self (r : Registry) (a : Address) : (r.remove a).2.get? a = none := by
  unfold remove
  cases h : r.get? a with
  | none => exact h
  | some p => simp [get?]

/-- How many phases the peer of an address has before it, counting its own; none without a peer. -/
def distance (r : Registry) (a : Address) : Nat :=
  match r.get? a with
  | some p => p.phase.remaining + 1
  | none => 0

theorem distance_takeHandle (r : Registry) (a : Address) :
    (r.takeHandle a).2.distance a = r.distance a := by
  unfold takeHandle
  split
  · rename_i p found
    split
    · obtain rfl := address_of_get? found
      have taken := get?_replace_self (q := { p with handle := none }) found
      simp only [distance, get?] at taken found ⊢
      rw [taken, found]
    · rfl
  · rfl

theorem distance_remove (r : Registry) (a : Address) : (r.remove a).2.distance a = 0 := by
  simp [distance, get?_remove_self]

theorem distance_carryOut (a : Address) (handle : Option Handle) (actions : List Action)
    (r : Registry) : (r.carryOut a handle actions).2.distance a ≤ r.distance a := by
  induction actions generalizing r with
  | nil => exact Nat.le_refl _
  | cons action actions ih =>
    unfold carryOut
    refine Nat.le_trans (ih _) ?_
    split
    · simp [distance_takeHandle]
    · simp [distance_remove]
    · exact Nat.le_refl _

/-- Where there is no peer or it refuses the event, nothing happens. -/
theorem advance_of_refused {policy : LinkPolicy} {a : Address} {event : PeerEvent} {r : Registry}
    (why : ∀ p, r.get? a = some p → p.react policy event = .refused p) :
    r.advance policy a event = ([], r) := by
  cases here : r.get? a with
  | none => simp only [advance, here]
  | some p => simp only [advance, here, Peer.apply_of_refused (why p here), replace_self here]

/-- An event brings the peer forward, or there is nothing left to be done. -/
theorem distance_advance (policy : LinkPolicy) (a : Address) (event : PeerEvent) (r : Registry) :
    (r.advance policy a event).2.distance a < r.distance a ∨
      ((r.advance policy a event).1 = [] ∧ (r.advance policy a event).2.distance a = r.distance a) := by
  cases found : r.get? a with
  | none =>
    rw [advance_of_refused (by simp [found])]
    exact Or.inr ⟨rfl, rfl⟩
  | some p =>
    cases answer : p.react policy event with
    | refused q =>
      obtain rfl := Peer.unchanged_of_refused answer
      rw [advance_of_refused (by simp [found, answer])]
      exact Or.inr ⟨rfl, rfl⟩
    | taken result =>
      obtain ⟨q, actions⟩ := result
      obtain ⟨further, kept⟩ := Peer.forward_of_taken answer
      obtain rfl : q.address = a := kept.trans (address_of_get? found)
      have after : (r.replace q).get? q.address = some q := get?_replace_self found
      have before : r.distance q.address = p.phase.remaining + 1 := by simp [distance, found]
      have marked : (if q.phase = .ready then (r.replace q).markReady q.address
          else r.replace q).distance q.address = q.phase.remaining + 1 := by
        split <;> simp [distance, after]
      simp only [advance, found, Peer.apply_of_taken answer]
      rcases further with ⟨same, idle⟩ | later
      · obtain rfl : actions = [] := idle
        refine Or.inr ⟨rfl, ?_⟩
        show Registry.distance (if q.phase = .ready then _ else _) _ = _
        rw [marked, before, show q.phase = p.phase from same]
      · refine Or.inl (Nat.lt_of_le_of_lt (distance_carryOut _ _ _ _) ?_)
        rw [marked, before]
        have low : p.phase.rank < 7 := Nat.lt_of_lt_of_le later (by cases q.phase <;> decide)
        have later : p.phase.rank < q.phase.rank := later
        simp only [Phase.remaining]
        omega

end RadioCentral.Registry
