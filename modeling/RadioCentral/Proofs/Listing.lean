import Mathlib.Order.Defs.LinearOrder
import RadioCentral.Hardware

/-!
What a listing lists, and what comes first in it. The listed attributes are those that were there, in
strictly ascending order; so the first characteristic of an identifier is that of the least service, and
within one service the first that the service lists.
-/
namespace RadioCentral

open Std

/-! ### Orders -/

section

variable {α β : Type}

theorem transCmp_on (cmp : β → β → Ordering) [TransCmp cmp] (f : α → β) :
    TransCmp fun a b => cmp (f a) (f b) where
  eq_swap := OrientedCmp.eq_swap
  isLE_trans := TransCmp.isLE_trans

theorem compareLists_eq (cmp : α → α → Ordering) : compareLists cmp = List.compareLex cmp := by
  funext xs ys
  induction xs generalizing ys with
  | nil => cases ys <;> rfl
  | cons x xs ih =>
    cases ys with
    | nil => rfl
    | cons y ys => rw [compareLists, List.compareLex_cons_cons, ih]

instance (cmp : α → α → Ordering) [TransCmp cmp] : TransCmp (compareLists cmp) := by
  rw [compareLists_eq]
  infer_instance

instance (cmp : α → α → Ordering) [LawfulEqCmp cmp] : LawfulEqCmp (compareLists cmp) := by
  rw [compareLists_eq]
  infer_instance

end

instance : TransCmp Uuid.order := transCmp_on compare Uuid.toNat

instance : LawfulEqCmp Uuid.order where
  compare_self := ReflCmp.compare_self
  eq_of_compare same := Uuid.toNat_inj.1 (LawfulEqCmp.eq_of_compare same)

instance : TransCmp Descriptor.order :=
  have := transCmp_on Uuid.order Descriptor.uuid
  have := transCmp_on Uuid.order Descriptor.characteristic
  inferInstanceAs (TransCmp (compareLex _ _))

instance : LawfulEqCmp Descriptor.order where
  compare_self := ReflCmp.compare_self
  eq_of_compare {d e} same := by
    obtain ⟨uuid, characteristic⟩ := Ordering.then_eq_eq.1 same
    cases d
    cases e
    simp_all

instance : TransCmp Characteristic.orderWithin :=
  have := transCmp_on (compare : Nat → Nat → Ordering) fun c : Characteristic => c.properties.bits.toNat
  have := transCmp_on (compareLists Descriptor.order) Characteristic.descriptors
  inferInstanceAs (TransCmp (compareLex _ _))

instance : TransCmp Characteristic.order :=
  have := transCmp_on Uuid.order Characteristic.uuid
  inferInstanceAs (TransCmp (compareLex _ _))

instance : LawfulEqCmp Characteristic.order where
  compare_self := ReflCmp.compare_self
  eq_of_compare {c d} same := by
    obtain ⟨uuid, within⟩ := Ordering.then_eq_eq.1 same
    obtain ⟨bits, descriptors⟩ := Ordering.then_eq_eq.1 within
    have properties : c.properties = d.properties := by
      cases hc : c.properties
      cases hd : d.properties
      simpa [hc, hd, UInt8.toNat_inj] using bits
    have descriptors := LawfulEqCmp.eq_of_compare descriptors
    cases c
    cases d
    simp_all

instance : TransCmp Service.order :=
  have := transCmp_on Uuid.order Service.uuid
  have := transCmp_on (compareLists Characteristic.order) Service.characteristics
  inferInstanceAs (TransCmp (compareLex _ _))

instance : LawfulEqCmp Service.order where
  compare_self := ReflCmp.compare_self
  eq_of_compare {s t} same := by
    obtain ⟨uuid, characteristics⟩ := Ordering.then_eq_eq.1 same
    cases s
    cases t
    simp_all

instance : TransCmp Attribute.order :=
  have := transCmp_on Uuid.order Attribute.uuid
  have := transCmp_on Uuid.order Attribute.service
  have := transCmp_on Characteristic.orderWithin Attribute.characteristic
  inferInstanceAs (TransCmp (compareLex (compareLex _ _) _))

instance : LawfulEqCmp Attribute.order where
  compare_self := ReflCmp.compare_self
  eq_of_compare {a b} same := by
    obtain ⟨names, within⟩ := Ordering.then_eq_eq.1 same
    obtain ⟨uuid, service⟩ := Ordering.then_eq_eq.1 names
    have whole : a.characteristic.order b.characteristic = .eq := Ordering.then_eq_eq.2 ⟨uuid, within⟩
    have := LawfulEqCmp.eq_of_compare whole
    cases a
    cases b
    simp_all

/-! ### Ordered lists -/

section

variable {α : Type} {cmp : α → α → Ordering} {x y : α} {l items : List α}

theorem mem_insertOrdered [LawfulEqCmp cmp] : y ∈ insertOrdered cmp x l ↔ y = x ∨ y ∈ l := by
  induction l with
  | nil => simp [insertOrdered]
  | cons z rest ih =>
    unfold insertOrdered
    split
    · simp
    case h_2 same =>
      rw [LawfulEqCmp.eq_of_compare same]
      simp
    · simp only [List.mem_cons, ih]
      exact or_left_comm

theorem mem_orderedList [LawfulEqCmp cmp] : y ∈ orderedList cmp items ↔ y ∈ items := by
  have both (listed : List α) :
      y ∈ items.foldl (fun listed x => insertOrdered cmp x listed) listed ↔ y ∈ listed ∨ y ∈ items := by
    induction items generalizing listed with
    | nil => simp
    | cons x items ih =>
      rw [List.foldl_cons, ih, mem_insertOrdered, List.mem_cons, or_assoc, or_left_comm]
  simpa [orderedList] using both []

theorem ascending_insertOrdered [TransCmp cmp] [LawfulEqCmp cmp] (ascending : l.Pairwise (cmp · · = .lt)) :
    (insertOrdered cmp x l).Pairwise (cmp · · = .lt) := by
  induction l with
  | nil => simp [insertOrdered]
  | cons z rest ih =>
    obtain ⟨first, later⟩ := List.pairwise_cons.1 ascending
    unfold insertOrdered
    split
    case h_1 before =>
      refine List.pairwise_cons.2 ⟨fun y mem => ?_, ascending⟩
      rcases List.mem_cons.1 mem with rfl | mem
      · exact before
      · exact TransCmp.lt_trans before (first y mem)
    · exact ascending
    case h_3 after =>
      refine List.pairwise_cons.2 ⟨fun y mem => ?_, ih later⟩
      rcases mem_insertOrdered.1 mem with rfl | mem
      · exact OrientedCmp.gt_iff_lt.1 after
      · exact first y mem

theorem ascending_orderedList [TransCmp cmp] [LawfulEqCmp cmp] (items : List α) :
    (orderedList cmp items).Pairwise (cmp · · = .lt) := by
  have kept (listed : List α) (ascending : listed.Pairwise (cmp · · = .lt)) :
      (items.foldl (fun listed x => insertOrdered cmp x listed) listed).Pairwise (cmp · · = .lt) := by
    induction items generalizing listed with
    | nil => exact ascending
    | cons x items ih => exact ih _ (ascending_insertOrdered ascending)
  exact kept [] .nil

/-- What is found first comes before all else that would do. -/
theorem least_of_find? [ReflCmp cmp] {p : α → Bool} (ascending : l.Pairwise (cmp · · = .lt))
    (found : l.find? p = some x) (mem : y ∈ l) (also : p y = true) : cmp x y ≠ .gt := by
  obtain ⟨-, before, after, rfl, others⟩ := List.find?_eq_some_iff_append.1 found
  rcases List.mem_append.1 mem with early | late
  · exact absurd also (by simpa using others y early)
  · rcases List.mem_cons.1 late with rfl | late
    · simp [ReflCmp.compare_self]
    · have less := (List.pairwise_cons.1 (List.pairwise_append.1 ascending).2.1).1 y late
      simp [less]

end

/-! ### The first of an identifier -/

def Service.Has (u : Uuid) (s : Service) : Prop := ∃ c ∈ s.characteristics, c.uuid = u

theorem Service.mem_listing {exposed : List Service} {s : Service} :
    s ∈ listing exposed ↔ ∃ t ∈ exposed, t.ordered = s := by
  rw [listing, mem_orderedList, List.mem_map]

theorem Service.has_ordered {u : Uuid} {s : Service} : s.ordered.Has u ↔ s.Has u := by
  simp only [Has, ordered, mem_orderedList, List.mem_map]
  constructor
  · rintro ⟨_, ⟨c, its, rfl⟩, named⟩
    exact ⟨c, its, named⟩
  · rintro ⟨c, its, named⟩
    exact ⟨_, ⟨c, its, rfl⟩, named⟩

namespace Attribute

structure First (services : List Service) (u : Uuid) (target : Attribute) : Prop where
  named : target.uuid = u
  exposed : ∃ s ∈ services, s.uuid = target.service ∧ target.characteristic ∈ s.characteristics
  least : ∀ s ∈ services, ∀ c ∈ s.characteristics, c.uuid = u → target.order ⟨s.uuid, c⟩ ≠ .gt

theorem first_of_find? {services : List Service} {u : Uuid} {target : Attribute}
    (found : (listing services).find? (fun a => a.uuid = u) = some target) : First services u target where
  named := by simpa using List.find?_some found
  exposed := by
    have mem := List.mem_of_find?_eq_some found
    rw [listing, mem_orderedList] at mem
    obtain ⟨s, there, mem⟩ := List.mem_flatMap.1 mem
    obtain ⟨c, its, rfl⟩ := List.mem_map.1 mem
    exact ⟨s, there, rfl, its⟩
  least s there c its named := by
    have mem : ⟨s.uuid, c⟩ ∈ listing services := by
      rw [listing, mem_orderedList]
      exact List.mem_flatMap.2 ⟨s, there, List.mem_map_of_mem its⟩
    exact least_of_find? (ascending_orderedList _) found mem (decide_eq_true named)

namespace First

variable {exposed : List Service} {u : Uuid} {target : Attribute} {service : Uuid}

theorem order_of_uuid {a b : Attribute} (same : a.uuid = b.uuid) :
    a.order b = (a.service.order b.service).then (a.characteristic.orderWithin b.characteristic) := by
  simp [order, same, ReflCmp.compare_self]

/-- The first is that of a service if and only if no service before that one has any. -/
theorem service_eq_iff (first : First (Service.listing exposed) u target)
    (offered : ∃ s ∈ exposed, s.uuid = service ∧ s.Has u) :
    target.service = service ↔ ∀ s ∈ exposed, s.Has u → ¬ s.uuid < service := by
  have least (s : Service) (there : s ∈ exposed) (has : s.Has u) : ¬ s.uuid < target.service := by
    obtain ⟨c, its, named⟩ := Service.has_ordered.2 has
    have before := first.least _ (Service.mem_listing.2 ⟨s, there, rfl⟩) c its named
    have same : target.uuid = uuid ⟨s.ordered.uuid, c⟩ := first.named.trans named.symm
    rw [order_of_uuid same] at before
    intro less
    have after : target.service.order s.ordered.uuid = .gt := Nat.compare_eq_gt.2 less
    simp [after] at before
  constructor
  · rintro rfl s there has
    exact least s there has
  · intro none
    obtain ⟨s, there, rfl, has⟩ := offered
    obtain ⟨t, listed, same, its⟩ := first.exposed
    obtain ⟨t', there', rfl⟩ := Service.mem_listing.1 listed
    have has' : t'.Has u := Service.has_ordered.1 ⟨_, its, first.named⟩
    refine Uuid.toNat_inj.1 (Nat.le_antisymm ?_ ?_)
    · exact Nat.not_lt.1 (least s there has)
    · exact Nat.not_lt.1 (same ▸ none t' there' has')

/-- Within a service that no other shares its identifier with, it is the first that the service lists. -/
theorem characteristic_eq (first : First (Service.listing exposed) u target)
    (single : ∀ s ∈ exposed, ∀ t ∈ exposed, s.uuid = target.service → t.uuid = target.service → s = t)
    {s : Service} (listed : s ∈ Service.listing exposed) (its : s.uuid = target.service) :
    s.characteristics.find? (fun c => c.uuid = u) = some target.characteristic := by
  have same {t : Service} (there : t ∈ Service.listing exposed) (also : t.uuid = target.service) : t = s := by
    obtain ⟨t', mem', rfl⟩ := Service.mem_listing.1 there
    obtain ⟨s', mem, rfl⟩ := Service.mem_listing.1 listed
    rw [single t' mem' s' mem also its]
  obtain ⟨t, there, also, mem⟩ := first.exposed
  obtain rfl := same there also
  cases found : t.characteristics.find? (fun c => c.uuid = u) with
  | none => exact absurd (decide_eq_true first.named) (List.find?_eq_none.1 found _ mem)
  | some c =>
    have named : c.uuid = u := by simpa using List.find?_some found
    have ascending : t.characteristics.Pairwise (Characteristic.order · · = .lt) := by
      obtain ⟨t', -, rfl⟩ := Service.mem_listing.1 there
      exact ascending_orderedList _
    have early := least_of_find? ascending found mem (decide_eq_true first.named)
    have late := first.least t there c (List.mem_of_find?_eq_some found) named
    rw [order_of_uuid (b := ⟨t.uuid, c⟩) (first.named.trans named.symm), also] at late
    have itself (v : Uuid) : v.order v = .eq := ReflCmp.compare_self
    have uuids : c.uuid.order target.characteristic.uuid = .eq := by
      rw [show target.characteristic.uuid = c.uuid from first.named.trans named.symm, itself]
    rw [itself, Ordering.eq_then] at late
    rw [Characteristic.order, uuids, Ordering.eq_then] at early
    have within := OrientedCmp.isLE_antisymm (Ordering.isLE_iff_ne_gt.2 early) (Ordering.isLE_iff_ne_gt.2 late)
    have whole : c.order target.characteristic = .eq := Ordering.then_eq_eq.2 ⟨uuids, within⟩
    rw [LawfulEqCmp.eq_of_compare whole]

end First

end Attribute

end RadioCentral
