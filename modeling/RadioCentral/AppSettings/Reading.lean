import RadioCentral.AppSettings
import RadioCentral.Toml.Value
import RadioCentral.Uuid.Text

/-!
Settings read from the values of a document. A field that is absent keeps its default; a value of the
wrong type or out of range spoils the whole.
-/
namespace RadioCentral

open Toml (Value)

/-- An identifier in any of its text forms, or as its sixteen bytes. -/
def Uuid.ofValue? : Value → Option Uuid
  | .string text => ofText? text
  | .array elements =>
    if elements.length < 16 then none
    else do
      let bytes ← (elements.take 16).mapM (Value.integerIn? 0 255)
      return ofNat (Bytes.beValue (bytes.map fun n => UInt8.ofNat n.toNat))
  | _ => none

def ScanMode.ofValue? (v : Value) : Option ScanMode := v.name?.bind ofName?

def Route.ofValue? (v : Value) : Option Route := v.name?.bind ofName?

def Toml.Value.listOf? {α : Type} (element? : Value → Option α) (v : Value) : Option (List α) :=
  v.elements?.bind fun elements => elements.mapM element?

/-- Reads a field; an absent one has its default. -/
def Toml.Value.field? {α : Type} (read? : Value → Option α) (default : α) : Option Value → Option α
  | none => some default
  | some v => read? v

namespace Settings

def fieldNames : List String :=
  ["service_uuid", "scan_mode", "request_unit_size", "requested_unit_size", "connect_routes",
    "notify_characteristics"]

def unitSize? (v : Value) : Option UInt16 := (v.integerIn? 0 65535).map fun n => UInt16.ofNat n.toNat

def ofValue? (v : Value) : Option Settings := do
  match ← v.fields? fieldNames with
  | [service, scanMode, negotiate, unitSize, routes, notify] => do
    let defaults : Settings := {}
    return {
      service := ← Value.field? Uuid.ofValue? defaults.service service
      scanMode := ← Value.field? ScanMode.ofValue? defaults.scanMode scanMode
      negotiate := ← Value.field? Value.boolean? defaults.negotiate negotiate
      unitSize := ← Value.field? unitSize? defaults.unitSize unitSize
      routes := ← Value.field? (Value.listOf? Route.ofValue?) defaults.routes routes
      notify := ← Value.field? (Value.listOf? Uuid.ofValue?) defaults.notify notify }
  | _ => none

end Settings

namespace RuntimeSettings

def fieldNames : List String := ["advertise_nonce", "ready_timeout_secs", "write_timeout_secs"]

def nonce? (v : Value) : Option Int32 := (v.integerIn? (-2147483648) 2147483647).map Int32.ofInt

def seconds? (v : Value) : Option UInt64 :=
  (v.integerIn? 0 18446744073709551615).map fun n => UInt64.ofNat n.toNat

def ofValue? (v : Value) : Option RuntimeSettings := do
  match ← v.fields? fieldNames with
  | [nonce, readyTimeout, writeTimeout] => do
    let defaults : RuntimeSettings := {}
    return {
      nonce := ← Value.field? (fun v => (nonce? v).map some) defaults.nonce nonce
      readyTimeout := ← Value.field? seconds? defaults.readyTimeout readyTimeout
      writeTimeout := ← Value.field? seconds? defaults.writeTimeout writeTimeout }
  | _ => none

end RuntimeSettings

namespace AppSettings

def fieldNames : List String := ["central", "runtime"]

/-- Settings as the values say them, whether or not they can be used. -/
def ofValue? (v : Value) : Option AppSettings := do
  match ← v.fields? fieldNames with
  | [central, runtime] => do
    return {
      central := ← Value.field? Settings.ofValue? {} central
      runtime := ← Value.field? RuntimeSettings.ofValue? {} runtime }
  | _ => none

end AppSettings

end RadioCentral
