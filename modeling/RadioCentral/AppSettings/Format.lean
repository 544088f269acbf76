import RadioCentral.AppSettings
import RadioCentral.Toml.Document

/-!
The texts of settings are left to a library. It writes documents and reads the values of a text; how the
values and records of the program stand in a document is up to it, too.
-/
namespace RadioCentral

open Toml (Document Item Value)

/-- The form in which a type is written, and how it is read. -/
structure Codec (ω α : Type) where
  write : α → ω
  read? : Value → Option α

structure Format where
  render? : Document → Option String
  parse? : String → Option Value
  uuid : Codec Item Uuid
  uuids : Codec Item (List Uuid)
  scanMode : Codec Item ScanMode
  routes : Codec Item (List Route)
  truth : Codec Item Bool
  unitSize : Codec Item UInt16
  nonce : Codec Item Int32
  seconds : Codec Item UInt64
  settings : Codec (List (String × Item)) Settings
  runtime : Codec (List (String × Item)) RuntimeSettings
  app : Codec Document AppSettings

end RadioCentral
