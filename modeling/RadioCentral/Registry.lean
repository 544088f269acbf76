import RadioCentral.Peer.Lifecycle

/-!
The peers a central knows. Beside the peers themselves the registry keeps which peer a handle belongs
to and which addresses have a connection attempt that has not come to anything yet. Peers stay in the
order in which they came.
-/
namespace RadioCentral

structure Registry where
  peers : List Peer := []
  /-- The address each attached handle belongs to. -/
  index : List (Handle × Address) := []
  connecting : List Address := []
  deriving DecidableEq

namespace Registry

def get? (r : Registry) (a : Address) : Option Peer := r.peers.find? fun p => p.address = a

def contains (r : Registry) (a : Address) : Bool := (r.get? a).isSome

/-- Puts a peer in the place of the first with its address. -/
def overwrite (p : Peer) : List Peer → List Peer
  | [] => []
  | q :: qs => if q.address = p.address then p :: qs else q :: overwrite p qs

def replace (p : Peer) (r : Registry) : Registry := { r with peers := overwrite p r.peers }

def modify (a : Address) (f : Peer → Peer) (r : Registry) : Registry :=
  match r.get? a with
  | some p => r.replace (f p)
  | none => r

def addressFor? (r : Registry) (h : Handle) : Option Address := r.index.lookup h

def isConnecting (r : Registry) (a : Address) : Bool := decide (a ∈ r.connecting)

def isReady (r : Registry) (a : Address) : Bool := ((r.get? a).map Peer.isReady).getD false

def size (r : Registry) : Nat := r.peers.length

def isEmpty (r : Registry) : Bool := r.peers.isEmpty

/-- An order in which peers are visited. No caller has a say in it, and it may change with the peers. -/
structure Order where
  visits : List Peer → List Peer
  perm (peers : List Peer) : (visits peers).Perm peers

def Order.admission : Order := ⟨id, List.Perm.refl⟩

instance : Inhabited Order := ⟨.admission⟩

def addresses (order : Order) (r : Registry) : List Address := (order.visits r.peers).map (·.address)

def readyAddresses (r : Registry) : List Address :=
  ((r.peers.filter Peer.isReady).map (·.address)).mergeSort fun a b => ¬ b < a

/-- Enters a new peer with an open connection attempt; nothing changes if the address is known. -/
def insertConnecting (a : Address) (r : Registry) : Bool × Registry :=
  if r.contains a then (false, r)
  else (true, { r with peers := r.peers ++ [{ address := a }], connecting := r.connecting ++ [a] })

/-- Gives a peer its handle; refused unless the peer is connecting and has none. -/
def attach (a : Address) (h : Handle) (r : Registry) : Bool × Registry :=
  match r.get? a with
  | some p =>
    if p.handle = none ∧ p.phase = .connecting then
      (true, { r.replace { p with handle := some h } with
        index := (h, a) :: r.index.filter fun entry => entry.1 ≠ h })
    else (false, r)
  | none => (false, r)

def takeHandle (a : Address) (r : Registry) : Option Handle × Registry :=
  match r.get? a with
  | some p =>
    match p.handle with
    | some h => (some h, { r.replace { p with handle := none } with
        index := r.index.filter fun entry => entry.1 ≠ h })
    | none => (none, r)
  | none => (none, r)

def remove (a : Address) (r : Registry) : Option Peer × Registry :=
  match r.get? a with
  | some p => (some p,
      { peers := r.peers.filter fun q => q.address ≠ a
        index := r.index.filter fun entry => some entry.1 ≠ p.handle
        connecting := r.connecting.filter (· ≠ a) })
  | none => (none, r)

/-- The attempt of an address came to a usable connection. -/
def markReady (a : Address) (r : Registry) : Registry :=
  { r with connecting := r.connecting.filter (· ≠ a) }

/-- Takes out everything and gives the handles that were held. -/
def clear (order : Order) (r : Registry) : List Handle × Registry :=
  ((order.visits r.peers).filterMap (·.handle), {})

/-- What is still to be done after a transition, outside the registry. -/
inductive Step where
  /-- Carries out an action on the handle the peer held before the transition. -/
  | run (action : Action) (handle : Option Handle)
  | release (handle : Handle)
  deriving DecidableEq

/-- Settles the actions that are about the registry and leaves the others to be done. -/
def carryOut (a : Address) (handle : Option Handle) : List Action → Registry → List Step × Registry
  | [], r => ([], r)
  | action :: actions, r =>
    let (steps, r) : List Step × Registry :=
      match action with
      | .release =>
        let (taken, r) := r.takeHandle a
        (taken.toList.map .release, r)
      | .forget => ([], (r.remove a).2)
      | _ => ([.run action handle], r)
    let (more, r) := carryOut a handle actions r
    (steps ++ more, r)

/-- Applies an event to the peer of an address; without a peer, or if the event is refused, nothing
happens. -/
def advance (policy : LinkPolicy) (a : Address) (event : PeerEvent) (r : Registry) :
    List Step × Registry :=
  match r.get? a with
  | none => ([], r)
  | some p =>
    match p.apply policy event with
    | (.error _, left) => ([], r.replace left)
    | (.ok t, after) =>
      let r := r.replace after
      let r := if after.phase = .ready then r.markReady a else r
      r.carryOut a p.handle t.actions

end Registry

end RadioCentral
