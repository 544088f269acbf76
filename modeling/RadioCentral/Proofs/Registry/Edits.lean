import RadioCentral.Proofs.Registry.Coherence

/-!
Changes that concern one address. What an event does to a registry is one of them, whatever else is
in the registry, and changes that concern different addresses can be made in either order.
-/
namespace RadioCentral.Registry

attribute [ext] Registry

/-- What a change may concern: an address, the handle of its peer, and a handle that is new. -/
structure Scope where
  address : Address
  held : Option Handle
  fresh : Option Handle := none

structure Scope.Apart (s t : Scope) : Prop where
  address : s.address ≠ t.address
  held : ∀ h, s.held = some h → t.held ≠ some h
  fresh : ∀ h, s.fresh = some h → t.held ≠ some h
  held_fresh : ∀ h, t.fresh = some h → s.held ≠ some h
  /-- At most one of two changes puts an entry into the index. -/
  single : s.fresh = none ∨ t.fresh = none

theorem Scope.Apart.symm {s t : Scope} (h : s.Apart t) : t.Apart s :=
  ⟨h.address.symm, fun k hk there => h.held k there hk, h.held_fresh, h.fresh, h.single.symm⟩

structure Edit where
  address : Address
  /-- The peer as it is afterwards, unless it is taken out. -/
  peer : Option Peer
  freed : Option Handle := none
  given : Option Handle := none
  closes : Bool
  own : ∀ p, peer = some p → p.address = address

theorem overwrite_comm {p q : Peer} (other : p.address ≠ q.address) (peers : List Peer) :
    overwrite p (overwrite q peers) = overwrite q (overwrite p peers) := by
  induction peers with
  | nil => rfl
  | cons x xs ih =>
    by_cases hp : x.address = p.address
    · have hq : x.address ≠ q.address := hp ▸ other
      rw [overwrite, if_neg hq, overwrite, if_pos hp, overwrite, if_pos hp, overwrite, if_neg other]
    · by_cases hq : x.address = q.address
      · rw [overwrite, if_pos hq, overwrite, if_neg other.symm, overwrite, if_neg hp, overwrite, if_pos hq]
      · simp only [overwrite, hp, hq, ↓reduceIte, ih]

theorem filter_overwrite_ne {q : Peer} {a : Address} {peers : List Peer} (other : q.address ≠ a) :
    (overwrite q peers).filter (fun p => decide (p.address ≠ a)) =
      overwrite q (peers.filter fun p => decide (p.address ≠ a)) := by
  induction peers with
  | nil => rfl
  | cons x xs ih =>
    by_cases hq : x.address = q.address
    · have stays : x.address ≠ a := hq ▸ other
      rw [overwrite, if_pos hq, List.filter_cons_of_pos (by simpa using other),
        List.filter_cons_of_pos (by simpa using stays), overwrite, if_pos hq]
    · by_cases gone : x.address = a
      · rw [overwrite, if_neg hq, List.filter_cons_of_neg (by simpa using gone),
          List.filter_cons_of_neg (by simpa using gone), ih]
      · rw [overwrite, if_neg hq, List.filter_cons_of_pos (by simpa using gone),
          List.filter_cons_of_pos (by simpa using gone), overwrite, if_neg hq, ih]

namespace Edit

def entries (d : Edit) : List (Handle × Address) := d.given.toList.map (·, d.address)

def spares (d : Edit) (entry : Handle × Address) : Bool :=
  some entry.1 ≠ d.freed ∧ some entry.1 ≠ d.given

def apply (r : Registry) (d : Edit) : Registry where
  peers := match d.peer with
    | some p => overwrite p r.peers
    | none => r.peers.filter fun p => p.address ≠ d.address
  index := d.entries ++ r.index.filter d.spares
  connecting := if d.closes then r.connecting.filter (· ≠ d.address) else r.connecting

structure Within (s : Scope) (d : Edit) : Prop where
  address : d.address = s.address
  freed : d.freed = none ∨ d.freed = s.held
  given : d.given = none ∨ d.given = s.fresh

variable {r : Registry} {d e : Edit} {s t : Scope}

theorem peers_apply_comm (other : d.address ≠ e.address) :
    (apply (apply r d) e).peers = (apply (apply r e) d).peers := by
  simp only [apply]
  cases left : d.peer with
  | none =>
    cases left' : e.peer with
    | none => simp only [List.filter_filter, Bool.and_comm]
    | some q =>
      have own := e.own q left'
      exact (filter_overwrite_ne (by rw [own]; exact other.symm)).symm
  | some p =>
    have own := d.own p left
    cases left' : e.peer with
    | none => exact filter_overwrite_ne (by rw [own]; exact other)
    | some q =>
      have own' := e.own q left'
      exact overwrite_comm (by rw [own, own']; exact other.symm) r.peers

theorem connecting_apply_comm :
    (apply (apply r d) e).connecting = (apply (apply r e) d).connecting := by
  simp only [apply]
  split <;> split <;> simp only [List.filter_filter, Bool.and_comm]

/-- The handle of an entry that is put in is not the one that another edit takes out. -/
theorem filter_entries (hd : d.Within s) (he : e.Within t) (apart : s.Apart t) :
    d.entries.filter e.spares = d.entries := by
  refine List.filter_eq_self.2 fun entry mem => ?_
  obtain ⟨h, given, rfl⟩ := List.mem_map.1 mem
  have given : d.given = some h := by simpa using given
  have fresh : s.fresh = some h := (hd.given.resolve_left (by simp [given])).symm.trans given
  have unheld := apart.fresh h fresh
  have alone : t.fresh = none := apart.single.resolve_left (by simp [fresh])
  simp only [spares, decide_eq_true_eq]
  refine ⟨?_, ?_⟩
  · rcases he.freed with none | same
    · simp [none]
    · rw [same]
      exact unheld.symm
  · rcases he.given with none | same
    · simp [none]
    · simp [same, alone]

theorem entries_eq_nil (hd : d.Within s) (none : s.fresh = none) : d.entries = [] := by
  have given : d.given = Option.none := by
    rcases hd.given with given | given
    · exact given
    · exact given.trans none
  simp [entries, given]

theorem index_apply_comm (hd : d.Within s) (he : e.Within t) (apart : s.Apart t) :
    (apply (apply r d) e).index = (apply (apply r e) d).index := by
  simp only [apply, List.filter_append, filter_entries hd he apart, filter_entries he hd apart.symm,
    List.filter_filter, Bool.and_comm]
  rcases apart.single with none | none
  · rw [entries_eq_nil hd none, List.nil_append, List.nil_append]
  · rw [entries_eq_nil he none, List.nil_append, List.nil_append]

theorem apply_comm (hd : d.Within s) (he : e.Within t) (apart : s.Apart t) :
    apply (apply r d) e = apply (apply r e) d := by
  have other : d.address ≠ e.address := by
    rw [hd.address, he.address]
    exact apart.address
  have peers := peers_apply_comm (r := r) other
  have index := index_apply_comm (r := r) hd he apart
  have connecting := connecting_apply_comm (r := r) (d := d) (e := e)
  exact Registry.ext peers index connecting

theorem get?_apply {b : Address} (other : b ≠ d.address) : (apply r d).get? b = r.get? b := by
  simp only [get?, apply]
  cases left : d.peer with
  | none => exact find?_filter_ne other r.peers
  | some q => exact find?_overwrite_ne (d.own q left ▸ other) r.peers

theorem addressFor?_apply {h : Handle} (freed : d.freed ≠ some h) (given : d.given ≠ some h) :
    (apply r d).addressFor? h = r.addressFor? h := by
  have entries : d.entries.lookup h = none := by
    cases new : d.given with
    | none => simp [entries, new]
    | some k =>
      have other : h ≠ k := fun same => given (same ▸ new)
      simp [entries, new, other]
  simp only [addressFor?, apply, List.lookup_append, entries, Option.none_or]
  induction r.index with
  | nil => rfl
  | cons entry index ih =>
    obtain ⟨k, a⟩ := entry
    by_cases same : h = k
    · subst same
      have stays : d.spares (h, a) = true := by simp [spares, freed.symm, given.symm]
      rw [List.filter_cons_of_pos stays, List.lookup_cons_self, List.lookup_cons_self]
    · by_cases stays : d.spares (k, a) = true
      · rw [List.filter_cons_of_pos stays, List.lookup_cons, List.lookup_cons, ih]
      · rw [List.filter_cons_of_neg stays, ih, List.lookup_cons, beq_eq_false_iff_ne.2 same]

theorem mem_connecting_apply {b : Address} :
    b ∈ (apply r d).connecting ↔ b ∈ r.connecting ∧ (d.closes = true → b ≠ d.address) := by
  unfold apply
  cases d.closes <;> simp

end Edit

def edit (r : Registry) (ds : List Edit) : Registry := ds.foldl Edit.apply r

@[simp] theorem edit_nil (r : Registry) : r.edit [] = r := rfl

@[simp] theorem edit_cons (r : Registry) (d : Edit) (ds : List Edit) :
    r.edit (d :: ds) = (Edit.apply r d).edit ds := rfl

@[simp] theorem edit_append (r : Registry) (ds es : List Edit) :
    r.edit (ds ++ es) = (r.edit ds).edit es :=
  List.foldl_append

section

variable {r : Registry} {ds es : List Edit} {s t : Scope}

theorem edit_apply_comm {d : Edit} (hd : d.Within s) (he : ∀ e ∈ es, e.Within t) (apart : s.Apart t) :
    (Edit.apply r d).edit es = Edit.apply (r.edit es) d := by
  induction es generalizing r with
  | nil => rfl
  | cons e es ih =>
    obtain ⟨first, rest⟩ := List.forall_mem_cons.1 he
    rw [edit_cons, edit_cons, Edit.apply_comm hd first apart]
    exact ih rest

/-- Edits that keep to scopes that are apart can be made in either order. -/
theorem edit_comm (hd : ∀ d ∈ ds, d.Within s) (he : ∀ e ∈ es, e.Within t) (apart : s.Apart t) :
    (r.edit ds).edit es = (r.edit es).edit ds := by
  induction ds generalizing r with
  | nil => rfl
  | cons d ds ih =>
    obtain ⟨first, rest⟩ := List.forall_mem_cons.1 hd
    rw [edit_cons, edit_cons, ih rest, edit_apply_comm first he apart]

theorem get?_edit {b : Address} (hd : ∀ d ∈ ds, d.Within s) (other : b ≠ s.address) :
    (r.edit ds).get? b = r.get? b := by
  induction ds generalizing r with
  | nil => rfl
  | cons d ds ih =>
    obtain ⟨first, rest⟩ := List.forall_mem_cons.1 hd
    rw [edit_cons, ih rest, Edit.get?_apply (first.address ▸ other)]

theorem addressFor?_edit {h : Handle} (hd : ∀ d ∈ ds, d.Within s) (held : s.held ≠ some h)
    (fresh : s.fresh ≠ some h) : (r.edit ds).addressFor? h = r.addressFor? h := by
  induction ds generalizing r with
  | nil => rfl
  | cons d ds ih =>
    obtain ⟨first, rest⟩ := List.forall_mem_cons.1 hd
    have freed : d.freed ≠ some h := by rcases first.freed with none | same <;> simp_all
    have given : d.given ≠ some h := by rcases first.given with none | same <;> simp_all
    rw [edit_cons, ih rest, Edit.addressFor?_apply freed given]

theorem connecting_edit_subset : ∀ b ∈ (r.edit ds).connecting, b ∈ r.connecting := by
  induction ds generalizing r with
  | nil => exact fun _ h => h
  | cons d ds ih => exact fun b hb => (Edit.mem_connecting_apply.1 (ih b hb)).1

theorem connecting_edit_of_open (still : ∀ d ∈ ds, d.closes = false) :
    (r.edit ds).connecting = r.connecting := by
  induction ds generalizing r with
  | nil => rfl
  | cons d ds ih =>
    obtain ⟨first, rest⟩ := List.forall_mem_cons.1 still
    rw [edit_cons, ih rest]
    simp [Edit.apply, first]

end

namespace Edit

def put (a : Address) (p q : Peer) (own : q.address = a) : Edit where
  address := a
  peer := some q
  closes := decide (p.phase ≠ .ready ∧ q.phase = .ready)
  own _ same := Option.some.inj same ▸ own

def drop (a : Address) (held : Option Handle) : Edit where
  address := a
  peer := none
  freed := held
  closes := true
  own _ none := by cases none

def give (a : Address) (q : Peer) (h : Handle) (own : q.address = a) : Edit where
  address := a
  peer := some q
  given := some h
  closes := false
  own _ same := Option.some.inj same ▸ own

theorem spares_put {a : Address} {p q : Peer} {own : q.address = a} :
    (put a p q own).spares = fun _ => true := by
  funext entry
  simp [spares, put]

theorem spares_drop {a : Address} {held : Option Handle} :
    (drop a held).spares = fun entry => decide (some entry.1 ≠ held) := by
  funext entry
  simp [spares, drop]

theorem spares_give {a : Address} {q : Peer} {h : Handle} {own : q.address = a} :
    (give a q h own).spares = fun entry => decide (entry.1 ≠ h) := by
  funext entry
  simp [spares, give]

end Edit

/-- The attempt of an address is over once its peer is ready. -/
def ClosedAt (a : Address) (r : Registry) : Prop :=
  ∀ p, r.get? a = some p → p.phase = .ready → a ∉ r.connecting

theorem Orderly.closedAt {r : Registry} (orderly : r.Orderly) (a : Address) : r.ClosedAt a := by
  intro p here ready attempted
  obtain ⟨q, there, unready⟩ := orderly.peer_of_attempt attempted
  obtain rfl : p = q := Option.some.inj (here.symm.trans there)
  exact unready ready

theorem connecting_putBack {r : Registry} {a : Address} {p q : Peer} (closed : r.ClosedAt a)
    (here : r.get? a = some p) :
    (r.putBack a q).connecting =
      if p.phase ≠ .ready ∧ q.phase = .ready then r.connecting.filter (· ≠ a) else r.connecting := by
  by_cases ready : q.phase = .ready
  · by_cases before : p.phase = .ready
    · have gone : r.connecting.filter (· ≠ a) = r.connecting := List.filter_eq_self.2 fun b hb => by
        have other : b ≠ a := fun same => closed p here before (same ▸ hb)
        simpa using other
      rw [putBack, if_pos ready, if_neg (by simp [before])]
      exact gone
    · rw [putBack, if_pos ready, if_pos ⟨before, ready⟩]
      rfl
  · rw [putBack, if_neg ready, if_neg (by simp [ready])]
    rfl

theorem putBack_eq_apply {r : Registry} {a : Address} {p q : Peer} (closed : r.ClosedAt a)
    (here : r.get? a = some p) (own : q.address = a) :
    r.putBack a q = Edit.apply r (.put a p q own) := by
  apply Registry.ext
  case peers => exact peers_putBack a q r
  case index =>
    rw [index_putBack, Edit.apply, Edit.spares_put]
    exact (List.filter_eq_self.2 fun _ _ => rfl).symm
  case connecting =>
    rw [connecting_putBack closed here]
    simp only [Edit.apply, Edit.put, decide_eq_true_eq]
    congr

theorem remove_eq_apply {r : Registry} {a : Address} {p : Peer} (here : r.get? a = some p) :
    (r.remove a).2 = Edit.apply r (.drop a p.handle) := by
  apply Registry.ext
  case peers =>
    simp only [remove, here]
    rfl
  case index =>
    simp only [remove, here, Edit.apply, Edit.spares_drop]
    rfl
  case connecting =>
    simp only [remove, here]
    rfl

theorem attach_eq_apply {r : Registry} {a : Address} {p q : Peer} {h : Handle}
    (here : r.get? a = some p) (bare : p.handle = none) (phase : p.phase = .connecting)
    (given : q = { p with handle := some h }) (own : q.address = a) :
    (r.attach a h).2 = Edit.apply r (.give a q h own) := by
  rw [attach_eq here bare phase, ← given]
  apply Registry.ext
  case peers => rfl
  case index =>
    rw [Edit.apply, Edit.spares_give]
    rfl
  case connecting => rfl

end RadioCentral.Registry
