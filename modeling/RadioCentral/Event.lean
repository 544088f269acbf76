import RadioCentral.Radio

/-!
What the radio tells the central and what the central tells its caller.
-/
namespace RadioCentral

/-- What the radio tells, in one ordered stream. -/
inductive RadioEvent where
  | advertisement (address : Address) (data : Bytes)
  | connected (handle : Handle)
  /-- The link went down, or a connect attempt failed. -/
  | disconnected (handle : Handle)
  /-- Discovery ended; without services when it failed. -/
  | servicesDiscovered (handle : Handle) (services : List Service)
  | descriptorWritten (handle : Handle) (characteristic : Uuid) (value : Bytes) (success : Bool)
  | unitSizeChanged (handle : Handle) (size : UInt16) (success : Bool)
  | characteristicChanged (handle : Handle) (characteristic : Uuid) (value : Bytes)
  | characteristicWritten (handle : Handle) (characteristic : Uuid) (value : Bytes) (status : UInt8)
  deriving DecidableEq, Repr

namespace RadioEvent

def kind : RadioEvent → String
  | advertisement .. => "advertisement"
  | connected _ => "connected"
  | disconnected _ => "disconnected"
  | servicesDiscovered .. => "services-discovered"
  | descriptorWritten .. => "descriptor-written"
  | unitSizeChanged .. => "unit-size-changed"
  | characteristicChanged .. => "characteristic-changed"
  | characteristicWritten .. => "characteristic-written"

def handle? : RadioEvent → Option Handle
  | advertisement .. => none
  | connected h | disconnected h | servicesDiscovered h _ | descriptorWritten h .. | unitSizeChanged h ..
  | characteristicChanged h .. | characteristicWritten h .. => some h

end RadioEvent

/-- The status of a write that went well. -/
def writeSucceeded : UInt8 := 0

inductive CentralError where
  | characteristicNotWritable (characteristic : Uuid)
  | writeRejected (address : Address) (characteristic : Uuid) (status : UInt8)
  | adapterNotAvailable
  | driverAlreadyAttached
  | radio (error : RadioError)
  deriving DecidableEq, Repr

namespace CentralError

def message : CentralError → String
  | characteristicNotWritable c =>
    "Requested write on characteristic " ++ c.text ++ " without write property"
  | writeRejected address c status =>
    "Write to characteristic " ++ c.text ++ " on " ++ address.text ++
      " was rejected by the peer (status " ++ toString status.toNat ++ ")"
  | adapterNotAvailable => "BLE adapter not available"
  | driverAlreadyAttached => "Central driver already attached"
  | radio error => "Platform error: " ++ error.message

def kind : CentralError → String
  | characteristicNotWritable _ => "CharacteristicNotWritable"
  | writeRejected .. => "WriteRejected"
  | adapterNotAvailable => "AdapterNotAvailable"
  | driverAlreadyAttached => "DriverAlreadyAttached"
  | radio _ => "Platform"

/-- A missing adapter has an error of its own; every other error of a radio is passed on. -/
def ofRadio : RadioError → CentralError
  | .noAdapter => adapterNotAvailable
  | error => radio error

end CentralError

/-- What the central tells its caller. -/
inductive Report where
  | connected (address : Address) (unitSize : Option UInt16)
  | disconnected (address : Address)
  | dataReceived (address : Address) (data : Bytes)
  | dataSent (address : Address) (data : Bytes) (error : Option CentralError)
  deriving DecidableEq, Repr

def Report.address : Report → Address
  | connected a _ | disconnected a | dataReceived a _ | dataSent a .. => a

end RadioCentral
