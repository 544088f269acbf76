import RadioCentral.Bytes
import RadioCentral.Uuid.Text

/-!
The attribute model of a peer: services hold characteristics, characteristics carry property bits and
descriptors.
-/
namespace RadioCentral

/-- The property bits of a characteristic, as its declaration carries them. -/
structure Properties where
  bits : UInt8
  deriving DecidableEq, Repr

namespace Properties

def read : Properties := ⟨0x02⟩
def writeWithoutResponse : Properties := ⟨0x04⟩
def write : Properties := ⟨0x08⟩
def notify : Properties := ⟨0x10⟩
def indicate : Properties := ⟨0x20⟩

/-- Whether every bit of `other` is set. -/
def contains (p other : Properties) : Bool := p.bits &&& other.bits == other.bits

def union (p other : Properties) : Properties := ⟨p.bits ||| other.bits⟩

/-- The properties that have a name, in the order in which they are written. -/
def named : List (Properties × String) :=
  [(notify, "notify"), (indicate, "indicate"), (write, "write"),
    (writeWithoutResponse, "write-no-rsp"), (read, "read")]

/-- The names of the properties that are set, then all bits as a number in parentheses. -/
def text (p : Properties) : String :=
  " ".intercalate ((named.filter fun entry => p.contains entry.1).map (·.2)) ++
    " (" ++ toString p.bits.toNat ++ ")"

end Properties

/-- A descriptor, with the identifier of the characteristic it says it belongs to. -/
structure Descriptor where
  uuid : Uuid
  characteristic : Uuid
  deriving DecidableEq, Repr

structure Characteristic where
  uuid : Uuid
  properties : Properties
  descriptors : List Descriptor := []
  deriving DecidableEq, Repr

namespace Characteristic

/-- Attaches a client configuration descriptor after those already there. -/
def withClientConfiguration (c : Characteristic) : Characteristic :=
  { c with descriptors := c.descriptors ++ [⟨Uuid.clientConfiguration, c.uuid⟩] }

def clientConfiguration? (c : Characteristic) : Option Descriptor :=
  c.descriptors.find? fun d => d.uuid = Uuid.clientConfiguration

def isWritable (c : Characteristic) : Bool := c.properties.contains Properties.write

end Characteristic

structure Service where
  uuid : Uuid
  characteristics : List Characteristic := []
  deriving DecidableEq, Repr

inductive WriteMode where
  | withResponse
  | withoutResponse
  deriving DecidableEq, Repr

def enableIndication : Bytes := [0x02, 0x00]

/-- The value that switches notifications and indications off. -/
def disableNotification : Bytes := [0x00, 0x00]

end RadioCentral
