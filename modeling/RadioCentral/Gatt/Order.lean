import RadioCentral.Gatt

/-!
The order in which attributes are listed. Attributes are sets for the hardware: whatever order a peer
exposes them in, they are listed ascending by identifier, then by what else tells them apart, and
equal ones once.
-/
namespace RadioCentral

def insertOrdered {α : Type} (cmp : α → α → Ordering) (x : α) : List α → List α
  | [] => [x]
  | y :: rest =>
    match cmp x y with
    | .lt => x :: y :: rest
    | .eq => y :: rest
    | .gt => y :: insertOrdered cmp x rest

/-- The items in ascending order, each once. -/
def orderedList {α : Type} (cmp : α → α → Ordering) (items : List α) : List α :=
  items.foldl (fun listed x => insertOrdered cmp x listed) []

/-- Compares lists item by item; of two lists the one that ends first comes first. -/
def compareLists {α : Type} (cmp : α → α → Ordering) : List α → List α → Ordering
  | [], [] => .eq
  | [], _ :: _ => .lt
  | _ :: _, [] => .gt
  | x :: xs, y :: ys => (cmp x y).then (compareLists cmp xs ys)

def Uuid.order (u v : Uuid) : Ordering := compare u.toNat v.toNat

def Descriptor.order (d e : Descriptor) : Ordering :=
  (d.uuid.order e.uuid).then (d.characteristic.order e.characteristic)

/-- Characteristics with equal identifiers differ in their properties or their descriptors. -/
def Characteristic.orderWithin (c d : Characteristic) : Ordering :=
  (compare c.properties.bits.toNat d.properties.bits.toNat).then
    (compareLists Descriptor.order c.descriptors d.descriptors)

def Characteristic.order (c d : Characteristic) : Ordering :=
  (c.uuid.order d.uuid).then (c.orderWithin d)

def Service.order (s t : Service) : Ordering :=
  (s.uuid.order t.uuid).then (compareLists Characteristic.order s.characteristics t.characteristics)

def Characteristic.ordered (c : Characteristic) : Characteristic :=
  { c with descriptors := orderedList Descriptor.order c.descriptors }

def Service.ordered (s : Service) : Service :=
  { s with characteristics := orderedList Characteristic.order (s.characteristics.map (·.ordered)) }

def Service.listing (services : List Service) : List Service :=
  orderedList Service.order (services.map (·.ordered))

structure Attribute where
  service : Uuid
  characteristic : Characteristic
  deriving DecidableEq, Repr

namespace Attribute

def uuid (a : Attribute) : Uuid := a.characteristic.uuid

/-- Characteristics of all services are listed by their own identifier first. -/
def order (a b : Attribute) : Ordering :=
  ((a.uuid.order b.uuid).then (a.service.order b.service)).then
    (a.characteristic.orderWithin b.characteristic)

def listing (services : List Service) : List Attribute :=
  orderedList order (services.flatMap fun s => s.characteristics.map fun c => ⟨s.uuid, c⟩)

end Attribute

end RadioCentral
