import RadioCentral.Proofs.Registry.Held

/-!
How the index of a registry and its open attempts go with its peers, whatever the phases of these are.
Every operation concerns one address, so a registry is compared with what it was before by what it holds
there and by what the index and the attempts say of other addresses.
-/
namespace RadioCentral.Registry

theorem lookup_filter_ne {α β : Type} [DecidableEq α] (index : List (α × β)) (h k : α) :
    (index.filter fun entry => decide (entry.1 ≠ h)).lookup k =
      if k = h then none else index.lookup k := by
  induction index with
  | nil => simp
  | cons entry index ih =>
    obtain ⟨j, a⟩ := entry
    by_cases hj : j = h
    · subst hj
      rw [List.filter_cons_of_neg (by simp), ih]
      by_cases hk : k = j
      · simp [hk]
      · rw [List.lookup_cons, if_neg hk, if_neg hk, (beq_eq_false_iff_ne).2 hk]
    · rw [List.filter_cons_of_pos (by simpa using hj), List.lookup_cons, List.lookup_cons, ih]
      by_cases hk : k = j
      · subst hk
        simp [hj]
      · rw [(beq_eq_false_iff_ne).2 hk]

/-- A handle leads to whoever holds it. -/
def Leads (h : Handle) (r : Registry) : Prop :=
  ∀ a p, r.get? a = some p → p.handle = some h → r.addressFor? h = some a

def Traced (r : Registry) : Prop :=
  ∀ a p h, r.get? a = some p → p.handle = some h → r.addressFor? h = some a

def Unshared (a : Address) (h : Handle) (r : Registry) : Prop :=
  ∀ p ∈ r.peers, p.address ≠ a → p.handle ≠ some h

instance (a : Address) (h : Handle) (r : Registry) : Decidable (r.Unshared a h) :=
  inferInstanceAs (Decidable (∀ p ∈ r.peers, p.address ≠ a → p.handle ≠ some h))

structure Filed (r : Registry) : Prop where
  unique : r.known.Nodup
  indexed : ∀ h a, r.addressFor? h = some a → ∃ p, r.get? a = some p ∧ p.handle = some h
  attempted : ∀ a ∈ r.connecting, r.contains a = true

theorem filed_empty : Filed {} where
  unique := List.nodup_nil
  indexed h a led := by simp [addressFor?] at led
  attempted a open' := absurd open' List.not_mem_nil

theorem traced_empty : Traced {} := fun a p h hp => by simp [get?] at hp

/-- A registry with the peer of an address in its place, or with nobody there. -/
structure Amended (r : Registry) (a : Address) (o : Option Peer) (r' : Registry) : Prop where
  unique : r.known.Nodup → r'.known.Nodup
  view : ∀ b, r'.get? b = if b = a then o else r.get? b
  /-- An entry of the index is of whoever is there now, or of another address and an old one. -/
  index : ∀ h b, r'.addressFor? h = some b →
    (b = a ∧ ∃ q, o = some q ∧ q.handle = some h) ∨ b ≠ a ∧ r.addressFor? h = some b
  attempts : ∀ b ∈ r'.connecting, (b = a ∧ o.isSome) ∨ b ≠ a ∧ b ∈ r.connecting

theorem Filed.amend {r r' : Registry} {a : Address} {o : Option Peer} (filed : r.Filed)
    (amended : Amended r a o r') : r'.Filed where
  unique := amended.unique filed.unique
  indexed h b led := by
    rw [amended.view]
    rcases amended.index h b led with ⟨rfl, q, there, holds⟩ | ⟨other, old⟩
    · exact ⟨q, by rw [if_pos rfl, there], holds⟩
    · rw [if_neg other]
      exact filed.indexed h b old
  attempted b open' := by
    rw [contains_iff, amended.view]
    rcases amended.attempts b open' with ⟨rfl, some⟩ | ⟨other, old⟩
    · rw [if_pos rfl]
      exact Option.isSome_iff_exists.1 some
    · rw [if_neg other]
      exact contains_iff.1 (filed.attempted b old)

/-- A handle leads to its holder after a change at one address, if it does so for the peer that is there
now and the entries of the others stand. -/
theorem Leads.amend {r r' : Registry} {a : Address} {o : Option Peer} {h : Handle} (leads : r.Leads h)
    (view : ∀ b, r'.get? b = if b = a then o else r.get? b)
    (own : ∀ q, o = some q → q.handle = some h → r'.addressFor? h = some a)
    (others : ∀ b s, b ≠ a → r.get? b = some s → s.handle = some h → r.addressFor? h = some b →
      r'.addressFor? h = some b) : r'.Leads h := by
  intro b s there holds
  rw [view] at there
  by_cases hb : b = a
  · rw [if_pos hb] at there
    exact hb ▸ own s there holds
  · rw [if_neg hb] at there
    exact others b s hb there holds (leads b s there holds)

section

variable {r : Registry} {a : Address} {p q : Peer} {h : Handle}

theorem get?_replace (here : r.get? q.address = some p) (b : Address) :
    (r.replace q).get? b = if b = q.address then some q else r.get? b := by
  by_cases hb : b = q.address
  · rw [hb, if_pos rfl]
    exact get?_replace_self here
  · rw [if_neg hb]
    exact get?_replace_ne hb

theorem Filed.replaced (filed : r.Filed) (here : r.get? q.address = some p) (handle : q.handle = p.handle) :
    Amended r q.address (some q) (r.replace q) where
  unique distinct := (known_replace r q).symm ▸ distinct
  view := get?_replace here
  index k b led := by
    have led : r.addressFor? k = some b := led
    by_cases hb : b = q.address
    · obtain ⟨s, there, holds⟩ := filed.indexed k b led
      obtain rfl : p = s := Option.some.inj (here.symm.trans (hb ▸ there))
      exact Or.inl ⟨hb, q, rfl, handle.trans holds⟩
    · exact Or.inr ⟨hb, led⟩
  attempts b open' := by
    by_cases hb : b = q.address
    · exact Or.inl ⟨hb, rfl⟩
    · exact Or.inr ⟨hb, open'⟩

/-- A peer that keeps its handle can be changed at will. -/
theorem Filed.replace (filed : r.Filed) (here : r.get? q.address = some p) (handle : q.handle = p.handle) :
    (r.replace q).Filed := filed.amend (filed.replaced here handle)

theorem Filed.markReady (filed : r.Filed) (a : Address) : (r.markReady a).Filed where
  unique := filed.unique
  indexed := filed.indexed
  attempted b open' := filed.attempted b (List.mem_filter.1 open').1

theorem Leads.replace (leads : r.Leads h) (here : r.get? q.address = some p)
    (handle : q.handle = p.handle) : (r.replace q).Leads h := by
  refine leads.amend (get?_replace here) ?_ fun _ _ _ _ _ led => led
  rintro _ ⟨⟩ holds
  exact leads q.address p here (handle ▸ holds)

theorem get?_remove (r : Registry) (a b : Address) :
    (r.remove a).2.get? b = if b = a then none else r.get? b := by
  by_cases hb : b = a
  · rw [hb, if_pos rfl, get?_remove_self]
  · rw [if_neg hb, get?_remove_ne hb]

theorem addressFor?_remove (here : r.get? a = some p) (h : Handle) :
    (r.remove a).2.addressFor? h = if p.handle = some h then none else r.addressFor? h := by
  cases held : p.handle with
  | none =>
    have whole : (r.index.filter fun entry => decide (some entry.1 ≠ p.handle)) = r.index :=
      List.filter_eq_self.2 (by simp [held])
    simp only [remove, here, addressFor?, whole, reduceCtorEq, ↓reduceIte]
  | some k =>
    have filtered := lookup_filter_ne r.index k h
    simp only [remove, here, addressFor?, held, ne_eq, Option.some.injEq] at filtered ⊢
    rw [filtered]
    by_cases hk : h = k
    · simp [hk]
    · rw [if_neg hk, if_neg (fun same => hk same.symm)]

theorem Filed.removed (filed : r.Filed) (here : r.get? a = some p) : Amended r a none (r.remove a).2 where
  unique := (known_remove_sublist r a).nodup
  view := r.get?_remove a
  index k b led := by
    rw [addressFor?_remove here] at led
    by_cases held : p.handle = some k
    · rw [if_pos held] at led
      cases led
    · rw [if_neg held] at led
      refine Or.inr ⟨?_, led⟩
      rintro rfl
      obtain ⟨s, there, holds⟩ := filed.indexed k b led
      exact held (Option.some.inj (here.symm.trans there) ▸ holds)
  attempts b open' := by
    have both : b ∈ r.connecting ∧ b ≠ a := by simpa [remove, here] using open'
    exact Or.inr both.symm

theorem Filed.remove (filed : r.Filed) (a : Address) : (r.remove a).2.Filed := by
  cases here : r.get? a with
  | none => simpa only [Registry.remove, here] using filed
  | some p => exact filed.amend (filed.removed here)

theorem Leads.remove (leads : r.Leads h) (a : Address) : (r.remove a).2.Leads h := by
  cases here : r.get? a with
  | none => simpa only [Registry.remove, here] using leads
  | some p =>
    refine leads.amend (r.get?_remove a) (by simp) fun b s other _ _ led => ?_
    rw [addressFor?_remove here, if_neg, led]
    intro holds
    exact other (Option.some.inj (led.symm.trans (leads a p here holds)))

theorem get?_attach (here : r.get? a = some p) (bare : p.handle = none) (phase : p.phase = .connecting)
    (b : Address) :
    (r.attach a h).2.get? b = if b = a then some { p with handle := some h } else r.get? b := by
  obtain rfl := address_of_get? here
  rw [attach_eq here bare phase]
  exact get?_replace (q := { p with handle := some h }) here b

theorem addressFor?_attach (here : r.get? a = some p) (bare : p.handle = none)
    (phase : p.phase = .connecting) (k : Handle) :
    (r.attach a h).2.addressFor? k = if k = h then some a else r.addressFor? k := by
  have filtered := lookup_filter_ne r.index h k
  rw [attach_eq here bare phase]
  simp only [addressFor?, List.lookup_cons, filtered]
  by_cases hk : k = h
  · simp [hk]
  · simp [hk, beq_eq_false_iff_ne.2 hk]

/-- Once a handle is attached, an entry of the index is the new one, or an old one of a peer that is as it
was or has got the handle. -/
theorem indexed_attach {k : Handle} {b : Address} (here : r.get? a = some p) (bare : p.handle = none)
    (phase : p.phase = .connecting) (known : (r.attach a h).2.addressFor? k = some b)
    (there : (r.attach a h).2.get? b = some q) :
    (k = h ∧ b = a ∧ q = { p with handle := some h }) ∨
      k ≠ h ∧ r.addressFor? k = some b ∧
        ∃ q', r.get? b = some q' ∧ (q = q' ∨ q = { q' with handle := some h }) := by
  rw [addressFor?_attach here bare phase] at known
  rw [get?_attach here bare phase] at there
  by_cases new : k = h
  · rw [if_pos new] at known
    obtain rfl := Option.some.inj known
    rw [if_pos rfl] at there
    exact Or.inl ⟨new, rfl, (Option.some.inj there).symm⟩
  · rw [if_neg new] at known
    refine Or.inr ⟨new, known, ?_⟩
    by_cases hb : b = a
    · rw [if_pos hb] at there
      exact ⟨p, hb ▸ here, Or.inr (Option.some.inj there).symm⟩
    · rw [if_neg hb] at there
      exact ⟨q, there, Or.inl rfl⟩

theorem Filed.attached (filed : r.Filed) (here : r.get? a = some p) (bare : p.handle = none)
    (phase : p.phase = .connecting) :
    Amended r a (some { p with handle := some h }) (r.attach a h).2 where
  unique distinct := by
    rw [(held_attach (h := h) distinct here bare phase).2.1]
    exact distinct
  view := get?_attach here bare phase
  index k b led := by
    rw [addressFor?_attach here bare phase] at led
    by_cases hk : k = h
    · rw [if_pos hk] at led
      exact Or.inl ⟨(Option.some.inj led).symm, _, rfl, congrArg some hk.symm⟩
    · rw [if_neg hk] at led
      refine Or.inr ⟨?_, led⟩
      rintro rfl
      obtain ⟨s, there, holds⟩ := filed.indexed k b led
      obtain rfl : p = s := Option.some.inj (here.symm.trans there)
      simp [bare] at holds
  attempts b open' := by
    rw [attach_eq here bare phase] at open'
    by_cases hb : b = a
    · exact Or.inl ⟨hb, rfl⟩
    · exact Or.inr ⟨hb, open'⟩

/-- A handle goes to a connecting peer without one. -/
theorem Filed.attach (filed : r.Filed) (here : r.get? a = some p) (bare : p.handle = none)
    (phase : p.phase = .connecting) : (r.attach a h).2.Filed := filed.amend (filed.attached here bare phase)

theorem unshared_of_not_held (free : h ∉ r.held) : r.Unshared a h :=
  fun p mem _ holds => free (List.mem_filterMap.2 ⟨p, mem, holds⟩)

/-- A handle that nobody else holds comes to lead to the peer it is given to. -/
theorem Leads.attach {k : Handle} (leads : r.Leads h) (here : r.get? a = some p)
    (bare : p.handle = none) (phase : p.phase = .connecting) (sole : h = k → r.Unshared a k) :
    (r.attach a k).2.Leads h := by
  refine leads.amend (get?_attach here bare phase) ?_ fun b s other there holds led => ?_
  · rintro _ ⟨⟩ holds
    obtain rfl : k = h := Option.some.inj holds
    rw [addressFor?_attach here bare phase, if_pos rfl]
  · have new : h ≠ k := by
      rintro rfl
      refine sole rfl s (List.mem_of_find?_eq_some there) ?_ holds
      rwa [address_of_get? there]
    rw [addressFor?_attach here bare phase, if_neg new, led]

def lodge (q : Peer) (r : Registry) : Registry :=
  { r with peers := r.peers ++ [q], connecting := r.connecting ++ [q.address] }

theorem get?_lodge (unknown : r.contains q.address = false) (b : Address) :
    (r.lodge q).get? b = if b = q.address then some q else r.get? b := by
  have none : r.get? q.address = none := by simpa [contains] using unknown
  simp only [get?, lodge, List.find?_append] at none ⊢
  by_cases hb : b = q.address
  · simp [hb, none]
  · simp [hb, Ne.symm hb]

theorem unique_lodge (unique : r.known.Nodup) (unknown : r.contains q.address = false) :
    (r.lodge q).known.Nodup := by
  have added : (r.lodge q).known = r.known ++ [q.address] := by simp [known, lodge]
  have fresh : q.address ∉ r.known := by rw [mem_known, unknown]; simp
  rw [added]
  refine List.nodup_append.2 ⟨unique, by simp, fun x hx y hy => ?_⟩
  rintro rfl
  rw [List.mem_singleton.1 hy] at hx
  exact fresh hx

theorem held_lodge (r : Registry) (bare : q.handle = none) : (r.lodge q).held = r.held := by
  simp [held, lodge, bare]

theorem Filed.lodged (filed : r.Filed) (unknown : r.contains q.address = false) :
    Amended r q.address (some q) (r.lodge q) where
  unique distinct := unique_lodge distinct unknown
  view := get?_lodge unknown
  index k b led := by
    have led : r.addressFor? k = some b := led
    refine Or.inr ⟨?_, led⟩
    rintro rfl
    obtain ⟨s, there, -⟩ := filed.indexed k _ led
    simp [contains, there] at unknown
  attempts b open' := by
    by_cases hb : b = q.address
    · exact Or.inl ⟨hb, rfl⟩
    · exact Or.inr ⟨hb, by simpa [lodge, hb] using open'⟩

theorem Filed.lodge (filed : r.Filed) (unknown : r.contains q.address = false) : (r.lodge q).Filed :=
  filed.amend (filed.lodged unknown)

theorem Leads.lodge (leads : r.Leads h) (unknown : r.contains q.address = false)
    (bare : q.handle = none) : (r.lodge q).Leads h := by
  refine leads.amend (get?_lodge unknown) ?_ fun _ _ _ _ _ led => led
  rintro _ ⟨⟩ holds
  simp [bare] at holds

def bereft (p : Peer) (h : Handle) (r : Registry) : Registry :=
  { r.replace { p with handle := none } with index := r.index.filter fun entry => entry.1 ≠ h }

theorem takeHandle_eq (here : r.get? a = some p) (held : p.handle = some h) :
    r.takeHandle a = (some h, r.bereft p h) := by
  simp only [takeHandle, here, held, bereft]

theorem takeHandle_of_bare (bare : ∀ p, r.get? a = some p → p.handle = none) :
    r.takeHandle a = (none, r) := by
  cases here : r.get? a with
  | none => simp only [takeHandle, here]
  | some p => simp only [takeHandle, here, bare p here]

theorem addressFor?_bereft (r : Registry) (p : Peer) (h k : Handle) :
    (r.bereft p h).addressFor? k = if k = h then none else r.addressFor? k := lookup_filter_ne r.index h k

theorem Filed.bereaved (filed : r.Filed) (here : r.get? p.address = some p) (held : p.handle = some h) :
    Amended r p.address (some { p with handle := none }) (r.bereft p h) where
  unique distinct := (known_replace r { p with handle := none }).symm ▸ distinct
  view := get?_replace (q := { p with handle := none }) here
  index k b led := by
    rw [addressFor?_bereft] at led
    by_cases hk : k = h
    · rw [if_pos hk] at led
      cases led
    · rw [if_neg hk] at led
      refine Or.inr ⟨?_, led⟩
      rintro rfl
      obtain ⟨s, there, holds⟩ := filed.indexed k _ led
      obtain rfl : p = s := Option.some.inj (here.symm.trans there)
      exact hk (Option.some.inj (holds.symm.trans held))
  attempts b open' := by
    by_cases hb : b = p.address
    · exact Or.inl ⟨hb, rfl⟩
    · exact Or.inr ⟨hb, open'⟩

theorem Filed.bereft (filed : r.Filed) (here : r.get? p.address = some p) (held : p.handle = some h) :
    (r.bereft p h).Filed := filed.amend (filed.bereaved here held)

theorem Leads.bereft {k : Handle} (leads : r.Leads k) (here : r.get? p.address = some p)
    (held : p.handle = some h) : (r.bereft p h).Leads k := by
  refine leads.amend (get?_replace (q := { p with handle := none }) here) ?_ fun b s other there holds led => ?_
  · rintro _ ⟨⟩ holds
    cases holds
  · have away : k ≠ h := by
      rintro rfl
      exact other (Option.some.inj (led.symm.trans (leads p.address p here held)))
    rw [addressFor?_bereft, if_neg away, led]

end

end RadioCentral.Registry
