/-!
Why a call to the hardware failed.
-/
namespace RadioCentral

inductive Failure where
  | permissionDenied
  | deviceNotFound
  | notConnected
  | notSupported (text : String)
  | timedOut
  | runtime (text : String)
  | other (text : String)
  deriving DecidableEq, Repr

def Failure.message : Failure → String
  | permissionDenied => "Permission denied"
  | deviceNotFound => "Device not found"
  | notConnected => "Not connected"
  | notSupported text => "The operation is not supported: " ++ text
  | timedOut => "Timed out after 5s"
  | runtime text => "Runtime Error: " ++ text
  | other text => text

end RadioCentral
