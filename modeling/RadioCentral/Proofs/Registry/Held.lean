import RadioCentral.Proofs.Registry.Advance

/-!
The handles a registry holds, and what each of its operations does to them. Every address has one
peer, so that an operation on an address concerns one handle.
-/
namespace RadioCentral.Registry

/-- The handles held by peers, in the order of the peers. -/
def held (r : Registry) : List Handle := r.peers.filterMap (·.handle)

def released (steps : List Step) : List Handle :=
  steps.filterMap fun
    | .release h => some h
    | .run .. => none

@[simp] theorem released_nil : released [] = [] := rfl

@[simp] theorem released_cons (step : Step) (steps : List Step) :
    released (step :: steps) = released [step] ++ released steps := by
  cases step <;> rfl

@[simp] theorem released_append (s t : List Step) : released (s ++ t) = released s ++ released t :=
  List.filterMap_append

@[simp] theorem released_run (actions : List Action) (handle : Option Handle) :
    released (actions.map (.run · handle)) = [] := by
  induction actions with
  | nil => rfl
  | cons action actions ih =>
    rw [List.map_cons, released_cons, ih]
    rfl

theorem released_release (hs : List Handle) : released (hs.map .release) = hs := by
  induction hs with
  | nil => rfl
  | cons h hs ih =>
    rw [List.map_cons, released_cons, ih]
    rfl

theorem clear_perm (order : Order) (r : Registry) : (r.clear order).1.Perm r.held :=
  (order.perm r.peers).filterMap _

/-- A peer stands between peers of other addresses. -/
theorem split_of_get? {r : Registry} {a : Address} {p : Peer} (unique : r.known.Nodup)
    (here : r.get? a = some p) :
    ∃ xs ys, r.peers = xs ++ p :: ys ∧ ∀ x ∈ xs ++ ys, x.address ≠ a := by
  obtain ⟨is, xs, ys, split, before⟩ := List.find?_eq_some_iff_append.1 here
  have address : p.address = a := by simpa using is
  refine ⟨xs, ys, split, fun x hx => ?_⟩
  rcases List.mem_append.1 hx with hx | hx
  · simpa using before x hx
  · intro same
    have distinct : (p :: ys).map (·.address) |>.Nodup := by
      refine List.Nodup.sublist ?_ unique
      simp [known, split]
    simp only [List.map_cons, List.nodup_cons, List.mem_map, not_exists, not_and] at distinct
    exact distinct.1 x hx (same.trans address.symm)

theorem get?_of_mem {r : Registry} (unique : r.known.Nodup) {p : Peer} (h : p ∈ r.peers) :
    r.get? p.address = some p := by
  cases here : r.get? p.address with
  | none => simpa using List.find?_eq_none.1 here p h
  | some q =>
    obtain ⟨xs, ys, split, others⟩ := split_of_get? unique here
    by_cases same : p = q
    · rw [same]
    · exact absurd rfl (others p (by simpa [split, same] using h))

theorem peers_replace {r : Registry} {q : Peer} {xs ys : List Peer} {p : Peer}
    (split : r.peers = xs ++ p :: ys) (address : p.address = q.address)
    (others : ∀ x ∈ xs ++ ys, x.address ≠ q.address) : (r.replace q).peers = xs ++ q :: ys := by
  show overwrite q r.peers = _
  have before : ∀ x ∈ xs, x.address ≠ q.address := fun x hx => others x (List.mem_append_left _ hx)
  rw [split]
  clear split others
  induction xs with
  | nil => rw [List.nil_append, overwrite, if_pos address, List.nil_append]
  | cons x xs ih =>
    obtain ⟨first, rest⟩ := List.forall_mem_cons.1 before
    rw [List.cons_append, overwrite, if_neg first, ih rest, List.cons_append]

theorem peers_remove {r : Registry} {a : Address} {xs ys : List Peer} {p : Peer}
    (here : r.get? a = some p) (split : r.peers = xs ++ p :: ys)
    (others : ∀ x ∈ xs ++ ys, x.address ≠ a) : (r.remove a).2.peers = xs ++ ys := by
  have address := address_of_get? here
  have same : ∀ zs : List Peer, (∀ z ∈ zs, z.address ≠ a) →
      zs.filter (fun z => decide (z.address ≠ a)) = zs := fun zs hzs =>
    List.filter_eq_self.2 fun z hz => by simpa using hzs z hz
  have left := same xs fun x hx => others x (List.mem_append_left _ hx)
  have right := same ys fun x hx => others x (List.mem_append_right _ hx)
  simp only [remove, here, split, List.filter_append, left]
  rw [List.filter_cons_of_neg (by simpa using address), right]

@[simp] theorem known_replace (r : Registry) (q : Peer) :
    (r.replace q).known = r.known := by
  show (overwrite q r.peers).map (·.address) = r.peers.map (·.address)
  induction r.peers with
  | nil => rfl
  | cons x xs ih =>
    by_cases same : x.address = q.address
    · rw [overwrite, if_pos same, List.map_cons, List.map_cons, same]
    · rw [overwrite, if_neg same, List.map_cons, List.map_cons, ih]

@[simp] theorem known_putBack (a : Address) (q : Peer) (r : Registry) :
    (r.putBack a q).known = r.known := by
  rw [known, peers_putBack]
  exact known_replace r q

theorem known_remove_sublist (r : Registry) (a : Address) :
    (r.remove a).2.known.Sublist r.known := by
  unfold remove
  split
  · exact List.filter_sublist.map _
  · exact List.Sublist.refl _

theorem contains_iff {r : Registry} {a : Address} : r.contains a = true ↔ ∃ p, r.get? a = some p :=
  Option.isSome_iff_exists

theorem mem_known {r : Registry} {a : Address} : a ∈ r.known ↔ r.contains a = true := by
  simp [known, contains, get?]

theorem held_replace {r : Registry} {p q : Peer} (unique : r.known.Nodup)
    (here : r.get? q.address = some p) (handle : q.handle = p.handle) : (r.replace q).held = r.held := by
  obtain ⟨xs, ys, split, others⟩ := split_of_get? unique here
  simp only [held, peers_replace split (address_of_get? here) others, split, List.filterMap_append,
    List.filterMap_cons, handle]

theorem held_remove {r : Registry} {a : Address} {p : Peer} (unique : r.known.Nodup)
    (here : r.get? a = some p) : r.held.Perm (p.handle.toList ++ (r.remove a).2.held) := by
  obtain ⟨xs, ys, split, others⟩ := split_of_get? unique here
  simp only [held, peers_remove here split others, split, List.filterMap_append, List.filterMap_cons]
  cases p.handle with
  | none => simp
  | some h => exact List.perm_middle

theorem attach_eq {r : Registry} {a : Address} {p : Peer} {h : Handle} (here : r.get? a = some p)
    (bare : p.handle = none) (phase : p.phase = .connecting) :
    r.attach a h = (true, { r.replace { p with handle := some h } with
      index := (h, a) :: r.index.filter fun entry => entry.1 ≠ h }) := by
  simp only [attach, here, bare, phase, and_self, ↓reduceIte]

theorem attach_of_refused {r : Registry} {a : Address} {h : Handle}
    (why : ∀ p, r.get? a = some p → p.handle ≠ none ∨ p.phase ≠ .connecting) :
    r.attach a h = (false, r) := by
  cases here : r.get? a with
  | none => simp only [attach, here]
  | some p =>
    have unfit : ¬ (p.handle = none ∧ p.phase = .connecting) := by
      rw [Decidable.not_and_iff_or_not]
      exact why p here
    simp only [attach, here, if_neg unfit]

theorem held_attach {r : Registry} {a : Address} {p : Peer} {h : Handle} (unique : r.known.Nodup)
    (here : r.get? a = some p) (bare : p.handle = none) (phase : p.phase = .connecting) :
    (r.attach a h).1 = true ∧ (r.attach a h).2.known = r.known ∧
      (r.attach a h).2.held.Perm (h :: r.held) := by
  obtain ⟨xs, ys, split, others⟩ := split_of_get? unique here
  obtain rfl := address_of_get? here
  let given : Peer := { p with handle := some h }
  have after : (r.replace given).peers = xs ++ given :: ys := peers_replace split rfl others
  rw [attach_eq here bare phase]
  refine ⟨rfl, known_replace r given, ?_⟩
  simp only [held, after, split, List.filterMap_append, List.filterMap_cons, bare, given]
  exact List.perm_middle

theorem known_advance_sublist (policy : LinkPolicy) (a : Address) (event : PeerEvent)
    (r : Registry) : (r.advance policy a event).2.known.Sublist r.known := by
  have spec := r.advance_spec policy a event
  generalize (r.advance policy a event).1 = steps at spec
  generalize (r.advance policy a event).2 = after at spec ⊢
  cases spec with
  | ignored => exact List.Sublist.refl _
  | kept => exact known_putBack a _ r ▸ List.Sublist.refl _
  | ended => exact known_remove_sublist r a

/-- A handle stays with its peer or is given back. -/
theorem held_advance (policy : LinkPolicy) (a : Address) (event : PeerEvent) {r : Registry}
    (unique : r.known.Nodup) :
    r.held.Perm ((r.advance policy a event).2.held ++ released (r.advance policy a event).1) := by
  have spec := r.advance_spec policy a event
  generalize (r.advance policy a event).1 = steps at spec ⊢
  generalize (r.advance policy a event).2 = after at spec ⊢
  cases spec with
  | ignored => simp
  | @kept p q actions here moved =>
    have same : (r.replace q).held = r.held := by
      refine held_replace (p := p) unique ?_ moved.handle_eq
      rw [moved.address_eq, address_of_get? here]
      exact here
    have back : (r.putBack a q).held = r.held := by rw [← same, held, peers_putBack, held]
    simp [back]
  | @ended p before here =>
    have gone := held_remove unique here
    have back : released (before.map (.run · p.handle) ++ (p.handle.toList.map .release ++
        [.run .reportDisconnected p.handle, .run .resumeScanning p.handle])) = p.handle.toList := by
      rw [released_append, released_append, released_run, released_release]
      simp [released]
    rw [back]
    exact gone.trans List.perm_append_comm

theorem count_held_advance {policy : LinkPolicy} {a : Address} {event : PeerEvent} {r : Registry}
    {h : Handle} (unique : r.known.Nodup) (once : r.held.count h ≤ 1) :
    (r.advance policy a event).2.held.count h ≤ 1 := by
  have kept := (held_advance policy a event unique).count_eq h
  rw [List.count_append] at kept
  omega

end RadioCentral.Registry
