import RadioCentral.Advert.Record
import RadioCentral.Uuid

/-!
What an advertisement says: the services it lists and the service data it carries. Any byte string
can be read; records of other types and incomplete identifiers say nothing.
-/
namespace RadioCentral

structure ServiceData where
  uuid : UInt16
  data : Bytes
  deriving DecidableEq, Repr

/-- The services listed, each once and in order of appearance, and every service data record. -/
structure Advert where
  services : List Uuid := []
  serviceData : List ServiceData := []
  deriving DecidableEq, Repr

namespace Advert

/-- The record types that say something; a list of services may be marked complete or not. -/
inductive Kind where
  | shortServices
  | longServices
  | serviceData
  deriving DecidableEq, Repr

def Kind.ofByte? (byte : UInt8) : Option Kind :=
  if byte = 0x02 ∨ byte = 0x03 then some .shortServices
  else if byte = 0x06 ∨ byte = 0x07 then some .longServices
  else if byte = 0x16 then some .serviceData
  else none

/-- The type written for a record; service lists are marked complete. -/
def Kind.byte : Kind → UInt8
  | .shortServices => 0x03
  | .longServices => 0x07
  | .serviceData => 0x16

def servicesOf (r : Record) : List Uuid :=
  match Kind.ofByte? r.kind with
  | some .shortServices =>
    (Bytes.pieces 2 r.payload).map fun piece => Uuid.expand (UInt16.ofNat (Bytes.leValue piece))
  | some .longServices => (Bytes.pieces 16 r.payload).map fun piece => Uuid.ofNat (Bytes.leValue piece)
  | _ => []

def serviceDataOf (r : Record) : Option ServiceData :=
  if Kind.ofByte? r.kind = some .serviceData ∧ 2 ≤ r.payload.length then
    some ⟨UInt16.ofNat (Bytes.leValue (r.payload.take 2)), r.payload.drop 2⟩
  else none

def addService (services : List Uuid) (u : Uuid) : List Uuid :=
  if u ∈ services then services else services ++ [u]

def extend (a : Advert) (r : Record) : Advert :=
  { services := (servicesOf r).foldl addService a.services
    serviceData := a.serviceData ++ (serviceDataOf r).toList }

def parse (bytes : Bytes) : Advert := (Record.split bytes).foldl extend {}

def advertises (a : Advert) (service : Uuid) : Bool := decide (service ∈ a.services)

/-- The number that four bytes write, most significant byte first and signed. -/
def nonceOf (bytes : Bytes) : Int32 := Int32.ofBitVec (BitVec.ofNat 32 (Bytes.beValue bytes))

/-- The nonce at the front of the only service data record. -/
def nonce? (a : Advert) : Option Int32 :=
  match a.serviceData with
  | [record] => if 4 ≤ record.data.length then some (nonceOf (record.data.take 4)) else none
  | _ => none

/-- Whether an advertisement calls for a connection. -/
inductive Verdict where
  /-- The peer's nonce is above ours: we connect. -/
  | connect (nonce : Int32)
  /-- The peer's nonce is not above ours: it is left to connect to us. -/
  | leave (nonce : Int32)
  | foreignService
  /-- There is no service data, more than one record of it, or too little of it. -/
  | missingNonce
  deriving DecidableEq, Repr

/-- Of two devices that see each other only the one that sees the larger nonce connects. -/
def Verdict.ofNonce (localNonce : Int32) : Option Int32 → Verdict
  | none => .missingNonce
  | some nonce => if localNonce < nonce then .connect nonce else .leave nonce

def verdict (a : Advert) (service : Uuid) (localNonce : Int32) : Verdict :=
  if a.advertises service then Verdict.ofNonce localNonce a.nonce? else .foreignService

end Advert

end RadioCentral
