import RadioCentral.AppSettings
import RadioCentral.Toml.Document
import RadioCentral.Uuid.Text

/-!
Settings as a document. Numbers in a document are signed and have 64 bits, so a longer timeout cannot
be written.
-/
namespace RadioCentral

open Toml (Item Section Document)

def Settings.entries (s : Settings) : List (String × Item) :=
  [("service_uuid", .one (.text s.service.text)),
    ("scan_mode", .one (.text s.scanMode.name)),
    ("request_unit_size", .one (.truth s.negotiate)),
    ("requested_unit_size", .one (.number s.unitSize.toNat)),
    ("connect_routes", .many (s.routes.map fun r => .text r.name)),
    ("notify_characteristics", .many (s.notify.map fun u => .text u.text))]

def RuntimeSettings.entries (s : RuntimeSettings) : List (String × Item) :=
  (s.nonce.toList.map fun n => ("advertise_nonce", .one (.number n.toInt))) ++
    [("ready_timeout_secs", .one (.number s.readyTimeout.toNat)),
      ("write_timeout_secs", .one (.number s.writeTimeout.toNat))]

def AppSettings.document (s : AppSettings) : Document :=
  [⟨"central", s.central.entries⟩, ⟨"runtime", s.runtime.entries⟩]

end RadioCentral
