import RadioCentral.Advert

/-!
Writing advertisements. A part says what one record is to hold; a payload that does not fit its record
loses its tail and never disturbs the records after it.
-/
namespace RadioCentral.Advert

/-- What one record of an advertisement is written from. -/
inductive Part where
  | shortServices (uuids : List UInt16)
  | longServices (uuids : List Uuid)
  | serviceData (uuid : UInt16) (data : Bytes)
  | nonce (uuid : UInt16) (value : Int32)
  | raw (kind : UInt8) (payload : Bytes)
  deriving DecidableEq, Repr

def nonceBytes (nonce : Int32) : Bytes := Bytes.beBytes 4 nonce.toBitVec.toNat

def serviceDataRecord (uuid : UInt16) (data : Bytes) : Record :=
  ⟨Kind.serviceData.byte, Bytes.leBytes 2 uuid.toNat ++ data⟩

/-- The record of a part, its payload at full length. -/
def Part.record : Part → Record
  | .shortServices uuids => ⟨Kind.shortServices.byte, uuids.flatMap fun u => Bytes.leBytes 2 u.toNat⟩
  | .longServices uuids => ⟨Kind.longServices.byte, uuids.flatMap fun u => Bytes.leBytes 16 u.toNat⟩
  | .serviceData uuid data => serviceDataRecord uuid data
  | .nonce uuid value => serviceDataRecord uuid (nonceBytes value)
  | .raw kind payload => ⟨kind, payload⟩

def build (parts : List Part) : Bytes := parts.flatMap fun part => part.record.encode

end RadioCentral.Advert
