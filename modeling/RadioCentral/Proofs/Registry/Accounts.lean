import Mathlib.Data.List.Induction
import Mathlib.Data.String.Basic
import Mathlib.Tactic.IntervalCases
import RadioCentral.Proofs.Registry.Coherence

/-!
The accounts of a registry. Whatever is done with it, and however the phases of its peers are changed
behind its back, its three collections agree, and every handle that was attached is held or was given
back, as often as it was attached.
-/
namespace RadioCentral.Registry

open scoped List

inductive Access where
  | insertConnecting (a : Address)
  /-- Changes a peer in any way, its address and its handle apart. -/
  | revise (a : Address) (change : Peer → Peer)
  | attach (a : Address) (h : Handle)
  | takeHandle (a : Address)
  | remove (a : Address)
  | markReady (a : Address)
  | clear (order : Order)

def revised (change : Peer → Peer) (p : Peer) : Peer :=
  { change p with address := p.address, handle := p.handle }

structure Account where
  registry : Registry := {}
  attached : List Handle := []
  returned : List Handle := []

namespace Account

def access (b : Account) : Access → Account
  | .insertConnecting a => { b with registry := (b.registry.insertConnecting a).2 }
  | .revise a change => { b with registry := b.registry.modify a (revised change) }
  | .attach a h =>
    let (done, registry) := b.registry.attach a h
    { b with registry, attached := if done then b.attached ++ [h] else b.attached }
  | .takeHandle a =>
    let (taken, registry) := b.registry.takeHandle a
    { b with registry, returned := b.returned ++ taken.toList }
  | .remove a =>
    let (gone, registry) := b.registry.remove a
    { b with registry, returned := b.returned ++ (gone.bind (·.handle)).toList }
  | .markReady a => { b with registry := b.registry.markReady a }
  | .clear order =>
    let (handles, registry) := b.registry.clear order
    { b with registry, returned := b.returned ++ handles }

def after (accesses : List Access) : Account := accesses.foldl access {}

theorem after_concat (accesses : List Access) (x : Access) :
    after (accesses ++ [x]) = (after accesses).access x := by
  simp [after]

end Account

/-- The peers, the index of handles and the open attempts fit each other. -/
structure Fits (r : Registry) : Prop extends Filed r where
  traced : r.Traced

section

variable {r : Registry} {a : Address} {p q : Peer} {h : Handle}

namespace Fits

theorem of_leads (filed : r.Filed) (leads : ∀ h, r.Leads h) : r.Fits :=
  ⟨filed, fun a p h => leads h a p⟩

theorem replace (fits : r.Fits) (here : r.get? q.address = some p) (handle : q.handle = p.handle) :
    (r.replace q).Fits :=
  of_leads (fits.toFiled.replace here handle) fun h => (fits.traced.leads h).replace here handle

theorem bereft (fits : r.Fits) (here : r.get? p.address = some p) (held : p.handle = some h) :
    (r.bereft p h).Fits :=
  of_leads (fits.toFiled.bereft here held) fun k => (fits.traced.leads k).bereft here held

theorem remove (fits : r.Fits) (a : Address) : (r.remove a).2.Fits :=
  of_leads (fits.toFiled.remove a) fun h => (fits.traced.leads h).remove a

/-- A handle nobody else holds can be given to a peer. -/
theorem attach (fits : r.Fits) (here : r.get? a = some p) (bare : p.handle = none)
    (phase : p.phase = .connecting) (sole : r.Unshared a h) : (r.attach a h).2.Fits :=
  of_leads (fits.toFiled.attach here bare phase) fun k =>
    (fits.traced.leads k).attach here bare phase fun _ => sole

theorem insertConnecting (fits : r.Fits) (a : Address) : (r.insertConnecting a).2.Fits := by
  cases known : r.contains a with
  | true => simpa only [Registry.insertConnecting, known, ↓reduceIte] using fits
  | false =>
    rw [insertConnecting_eq known]
    exact of_leads (fits.toFiled.lodge known) fun h => (fits.traced.leads h).lodge known rfl

theorem markReady (fits : r.Fits) (a : Address) : (r.markReady a).Fits :=
  ⟨fits.toFiled.markReady a, fits.traced⟩

end Fits

/-- What comes of attaching a handle: it is stored and indexed, or nothing is changed. -/
inductive Attached (r : Registry) (a : Address) (h : Handle) : Bool × Registry → Prop where
  | stored {p : Peer} {r' : Registry} (here : r.get? a = some p) (bare : p.handle = none)
      (phase : p.phase = .connecting)
      (peers : ∀ b, r'.get? b = if b = a then some { p with handle := some h } else r.get? b)
      (index : ∀ k, r'.addressFor? k = if k = h then some a else r.addressFor? k)
      (attempts : r'.connecting = r.connecting) : Attached r a h (true, r')
  | refused (why : ∀ p, r.get? a = some p → p.handle ≠ none ∨ p.phase ≠ .connecting) :
      Attached r a h (false, r)

/-- Either a peer waits for a handle or none does. -/
theorem fit_or_refused (r : Registry) (a : Address) :
    (∃ p, r.get? a = some p ∧ p.handle = none ∧ p.phase = .connecting) ∨
      ∀ p, r.get? a = some p → p.handle ≠ none ∨ p.phase ≠ .connecting := by
  by_cases fit : ∃ p, r.get? a = some p ∧ p.handle = none ∧ p.phase = .connecting
  · exact Or.inl fit
  · refine Or.inr fun p here => ?_
    rw [← Decidable.not_and_iff_or_not]
    exact fun both => fit ⟨p, here, both⟩

theorem attached_attach (r : Registry) (a : Address) (h : Handle) : Attached r a h (r.attach a h) := by
  rcases fit_or_refused r a with ⟨p, here, bare, phase⟩ | why
  · have done := attach_eq (h := h) here bare phase
    have peers := get?_attach (h := h) here bare phase
    have index := addressFor?_attach (h := h) here bare phase
    rw [done] at peers index ⊢
    exact .stored here bare phase peers index rfl
  · rw [attach_of_refused why]
    exact .refused why

theorem Fits.held_nodup (fits : r.Fits) : r.held.Nodup := by
  have apart : r.peers.Pairwise fun p q => p.address ≠ q.address := List.pairwise_map.1 fits.unique
  refine List.pairwise_filterMap.2 (apart.imp_of_mem fun {p q} hp hq other h held k held' same => ?_)
  subst same
  have home := fits.traced p.address p h (get?_of_mem fits.unique hp) held
  have home' := fits.traced q.address q h (get?_of_mem fits.unique hq) held'
  exact other (Option.some.inj (home.symm.trans home'))

theorem held_bereft (fits : r.Fits) (here : r.get? p.address = some p) (held : p.handle = some h) :
    r.held.Perm (h :: (r.bereft p h).held) := by
  obtain ⟨xs, ys, split, others⟩ := split_of_get? fits.unique here
  have after : (r.bereft p h).peers = xs ++ { p with handle := none } :: ys :=
    peers_replace (q := { p with handle := none }) split rfl others
  simp only [Registry.held, after, split, List.filterMap_append, List.filterMap_cons, held]
  exact List.perm_middle

end

structure Account.Balanced (b : Account) : Prop where
  fits : b.registry.Fits
  balance : b.attached.Perm (b.returned ++ b.registry.held)

namespace Account.Balanced

variable {b : Account} {a : Address}

theorem modify (balanced : b.Balanced) (a : Address) (change : Peer → Peer) :
    (b.access (.revise a change)).Balanced := by
  simp only [access, Registry.modify]
  cases here : b.registry.get? a with
  | none => exact ⟨balanced.fits, balanced.balance⟩
  | some p =>
    obtain rfl := address_of_get? here
    refine ⟨balanced.fits.replace (q := revised change p) here rfl, ?_⟩
    simp only [held_replace (q := revised change p) balanced.fits.unique here rfl]
    exact balanced.balance

theorem attach (balanced : b.Balanced) {h : Handle}
    (sole : (b.registry.attach a h).1 = true → b.registry.Unshared a h) :
    (b.access (.attach a h)).Balanced := by
  rcases fit_or_refused b.registry a with ⟨p, here, bare, phase⟩ | why
  · obtain ⟨done, -, held⟩ := held_attach (h := h) balanced.fits.unique here bare phase
    refine ⟨balanced.fits.attach here bare phase (sole done), ?_⟩
    simp only [access, done, ↓reduceIte]
    calc b.attached ++ [h]
      _ ~ (b.returned ++ b.registry.held) ++ [h] := balanced.balance.append_right _
      _ ~ b.returned ++ (h :: b.registry.held) := by
        rw [List.append_assoc]
        exact List.Perm.append_left _ (List.perm_append_singleton h _)
      _ ~ b.returned ++ (b.registry.attach a h).2.held := held.symm.append_left _
  · simp only [access, attach_of_refused why]
    exact ⟨balanced.fits, balanced.balance⟩

theorem takeHandle (balanced : b.Balanced) (a : Address) : (b.access (.takeHandle a)).Balanced := by
  by_cases bare : ∀ p, b.registry.get? a = some p → p.handle = none
  · simp only [access, takeHandle_of_bare bare, Option.toList_none, List.append_nil]
    exact balanced
  · simp only [not_forall] at bare
    obtain ⟨p, here, some⟩ := bare
    obtain ⟨h, held⟩ := Option.ne_none_iff_exists'.1 some
    obtain rfl := address_of_get? here
    simp only [access, takeHandle_eq here held, Option.toList_some]
    refine ⟨balanced.fits.bereft here held, balanced.balance.trans ?_⟩
    simp only [List.append_assoc, List.singleton_append]
    exact (held_bereft balanced.fits here held).append_left _

theorem remove (balanced : b.Balanced) (a : Address) : (b.access (.remove a)).Balanced := by
  refine ⟨balanced.fits.remove a, ?_⟩
  cases here : b.registry.get? a with
  | none =>
    simp only [access, Registry.remove, here, Option.bind_none, Option.toList_none, List.append_nil]
    exact balanced.balance
  | some p =>
    have gone : (b.registry.remove a).1 = some p := by simp only [Registry.remove, here]
    simp only [access, gone, Option.bind_some, List.append_assoc]
    exact balanced.balance.trans ((held_remove balanced.fits.unique here).append_left _)

end Account.Balanced

/-- Every access keeps the account balanced, as long as no handle is given to a second peer. -/
theorem Account.Balanced.access {b : Account} (balanced : b.Balanced) {x : Access}
    (sole : ∀ a h, x = .attach a h → (b.registry.attach a h).1 = true → b.registry.Unshared a h) :
    (b.access x).Balanced := by
  cases x with
  | insertConnecting a =>
    refine ⟨balanced.fits.insertConnecting a, ?_⟩
    have held : (b.registry.insertConnecting a).2.held = b.registry.held := by
      unfold Registry.insertConnecting
      split
      · rfl
      · exact b.registry.held_lodge rfl
    simp only [Account.access, held]
    exact balanced.balance
  | revise a change => exact balanced.modify a change
  | attach a h => exact balanced.attach (sole a h rfl)
  | takeHandle a => exact balanced.takeHandle a
  | remove a => exact balanced.remove a
  | markReady a => exact ⟨balanced.fits.markReady a, balanced.balance⟩
  | clear order =>
    refine ⟨⟨filed_empty, traced_empty⟩, ?_⟩
    have none : (b.registry.clear order).2.held = [] := rfl
    simp only [Account.access, none, List.append_nil]
    exact balanced.balance.trans ((clear_perm order b.registry).symm.append_left _)

/-- Every access that attaches a handle does so while no other peer holds it. -/
def SoleAttaching (accesses : List Access) : Prop :=
  ∀ n a h, accesses[n]? = some (.attach a h) →
    ((Account.after (accesses.take n)).registry.attach a h).1 = true →
      (Account.after (accesses.take n)).registry.Unshared a h

theorem balanced_after {accesses : List Access} (sole : SoleAttaching accesses) :
    (Account.after accesses).Balanced := by
  induction accesses using List.reverseRecOn with
  | nil => exact ⟨⟨filed_empty, traced_empty⟩, List.Perm.nil⟩
  | append_singleton accesses x ih =>
    have before : (Account.after accesses).Balanced := ih fun n a h found done => by
      have bound : n < accesses.length := (List.getElem?_eq_some_iff.1 found).1
      have now := sole n a h (by rw [List.getElem?_append_left bound]; exact found)
      rw [List.take_append_of_le_length bound.le] at now
      exact now done
    rw [Account.after_concat]
    refine before.access ?_
    rintro a h rfl
    simpa using sole accesses.length a h (by simp)

theorem Address.lt_of_not_lt {a b : Address} (h : ¬ b < a) (other : a ≠ b) : a < b := by
  have le : a.text ≤ b.text := not_lt.1 h
  refine lt_of_le_of_ne le fun same => other ?_
  cases a
  cases b
  exact congrArg Address.mk same

theorem ascending_readyAddresses {r : Registry} (unique : r.known.Nodup) :
    r.readyAddresses.Pairwise (· < ·) := by
  have trans : ∀ a b c : Address,
      decide (¬ b < a) = true → decide (¬ c < b) = true → decide (¬ c < a) = true := by
    intro a b c hab hbc
    have hab : a.text ≤ b.text := not_lt.1 (of_decide_eq_true hab)
    have hbc : b.text ≤ c.text := not_lt.1 (of_decide_eq_true hbc)
    exact decide_eq_true (not_lt.2 (hab.trans hbc) : ¬ c.text < a.text)
  have total : ∀ a b : Address, (decide (¬ b < a) || decide (¬ a < b)) = true := by
    intro a b
    rw [← Bool.decide_or, decide_eq_true_eq]
    exact (le_total a.text b.text).imp not_lt.2 not_lt.2
  have ordered : r.readyAddresses.Pairwise fun a b => decide (¬ b < a) = true :=
    List.pairwise_mergeSort trans total _
  have sorted : r.readyAddresses.Pairwise fun a b => ¬ b < a := ordered.imp of_decide_eq_true
  have distinct : r.readyAddresses.Nodup := by
    refine ((List.mergeSort_perm _ _).nodup_iff).2 ?_
    exact unique.sublist (List.filter_sublist.map _)
  exact sorted.imp₂ (fun _ _ => Address.lt_of_not_lt) distinct

theorem mem_readyAddresses {r : Registry} (unique : r.known.Nodup) {a : Address} :
    a ∈ r.readyAddresses ↔ ∃ p, r.get? a = some p ∧ p.phase = .ready := by
  simp only [readyAddresses, List.mem_mergeSort, List.mem_map, List.mem_filter]
  constructor
  · rintro ⟨p, ⟨mem, ready⟩, rfl⟩
    exact ⟨p, get?_of_mem unique mem, of_decide_eq_true ready⟩
  · rintro ⟨p, here, ready⟩
    exact ⟨p, ⟨List.mem_of_find?_eq_some here, decide_eq_true ready⟩, address_of_get? here⟩

/-- The accounts of a registry agree. However it was come by, as long as no handle was attached that
another peer holds: a peer stands under its own address, one at each; a handle leads to an address
exactly if the peer there holds it; open attempts are of peers that are known; the handles attached are
those given back and those held, each as often, and none is held twice. Attaching stores and indexes a
handle or changes nothing, and the ready addresses are listed in strictly ascending order. -/
theorem accounts_agree (accesses : List Access) (sole : SoleAttaching accesses) :
    let b := Account.after accesses
    let r := b.registry
    (∀ a p, r.get? a = some p → p.address = a) ∧ r.Fits ∧
      b.attached.Perm (b.returned ++ r.held) ∧ r.held.Nodup ∧
      (∀ a h, Attached r a h (r.attach a h)) ∧
      r.readyAddresses.Pairwise (· < ·) ∧
      ∀ a, a ∈ r.readyAddresses ↔ ∃ p, r.get? a = some p ∧ p.phase = .ready := by
  intro b r
  obtain ⟨fits, balance⟩ := balanced_after sole
  exact ⟨fun _ _ => address_of_get?, fits, balance, fits.held_nodup, attached_attach r,
    ascending_readyAddresses fits.unique, fun _ => mem_readyAddresses fits.unique⟩

/-- A peer is given a handle and asked to take another one; its handle is taken back and given to a second
peer, which becomes ready as the first one goes. Nobody else gets it meanwhile. -/
def handover : List Access :=
  [.insertConnecting ⟨"a"⟩, .revise ⟨"a"⟩ fun p => { p with phase := .connecting }, .attach ⟨"a"⟩ ⟨1⟩,
    .attach ⟨"a"⟩ ⟨2⟩, .takeHandle ⟨"a"⟩, .insertConnecting ⟨"b"⟩,
    .revise ⟨"b"⟩ fun p => { p with phase := .connecting },
    .attach ⟨"b"⟩ ⟨1⟩, .attach ⟨"c"⟩ ⟨1⟩, .remove ⟨"a"⟩,
    .revise ⟨"b"⟩ fun p => { p with phase := .ready }, .markReady ⟨"b"⟩]

theorem accounts_agree_handover :
    let b := Account.after handover
    b.registry.Fits ∧ b.attached = [⟨1⟩, ⟨1⟩] ∧ b.returned = [⟨1⟩] ∧ b.registry.held = [⟨1⟩] ∧
      b.attached.Perm (b.returned ++ b.registry.held) ∧ ⟨"b"⟩ ∈ b.registry.readyAddresses := by
  intro b
  have sole : SoleAttaching handover := by
    intro n a h found
    have bound : n < 12 := (List.getElem?_eq_some_iff.1 found).1
    interval_cases n <;> simp only [handover, List.getElem?_cons_zero, List.getElem?_cons_succ,
      Option.some.injEq, reduceCtorEq, Access.attach.injEq] at found <;> obtain ⟨rfl, rfl⟩ := found <;> decide
  obtain ⟨-, fits, balance, -, -, -, ready⟩ := accounts_agree handover sole
  refine ⟨fits, by decide, by decide, by decide, balance, (ready _).2 ?_⟩
  exact ⟨{ address := ⟨"b"⟩, phase := .ready, handle := some ⟨1⟩ }, by decide, rfl⟩

end RadioCentral.Registry
