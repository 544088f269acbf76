import RadioCentral.Settings

/-!
The settings of the program: those of the central and those of the commands run with it.
-/
namespace RadioCentral

structure RuntimeSettings where
  /-- The nonce to advertise; drawn at random when absent. -/
  nonce : Option Int32 := none
  /-- For how many seconds a peer to be sent to may take to become ready. -/
  readyTimeout : UInt64 := 30
  /-- For how many seconds a write may take to be confirmed. -/
  writeTimeout : UInt64 := 5
  deriving DecidableEq, Repr

structure AppSettings where
  central : Settings := {}
  runtime : RuntimeSettings := {}
  deriving DecidableEq, Repr

inductive SettingsFault where
  | unitSize (size : UInt16)
  | noRoutes
  | zeroTimeout
  deriving DecidableEq, Repr

def minUnitSize : UInt16 := 23

def maxUnitSize : UInt16 := 517

def SettingsFault.message : SettingsFault → String
  | unitSize size =>
    "requested_unit_size must be between " ++ toString minUnitSize.toNat ++ " and " ++
      toString maxUnitSize.toNat ++ ", got " ++ toString size.toNat
  | noRoutes => "at least one connect route is required"
  | zeroTimeout => "timeouts must be greater than 0"

namespace AppSettings

def fault? (s : AppSettings) : Option SettingsFault :=
  if s.central.unitSize < minUnitSize ∨ maxUnitSize < s.central.unitSize then
    some (.unitSize s.central.unitSize)
  else if s.central.routes = [] then some .noRoutes
  else if s.runtime.readyTimeout = 0 ∨ s.runtime.writeTimeout = 0 then some .zeroTimeout
  else none

end AppSettings

end RadioCentral
