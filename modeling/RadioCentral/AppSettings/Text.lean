import RadioCentral.AppSettings.Document
import RadioCentral.AppSettings.Format
import RadioCentral.AppSettings.Reading
import RadioCentral.Command.Error
import RadioCentral.Toml.Reading

/-!
Settings and their text, with the errors of either direction, and the library the program uses.
-/
namespace RadioCentral

def Format.toml : Format where
  render? d := if d.isWritable then some d.written else none
  parse? := Toml.Value.ofText?
  uuid := ⟨fun u => .one (.text u.text), Uuid.ofValue?⟩
  uuids := ⟨fun us => .many (us.map fun u => .text u.text), Toml.Value.listOf? Uuid.ofValue?⟩
  scanMode := ⟨fun m => .one (.text m.name), ScanMode.ofValue?⟩
  routes := ⟨fun rs => .many (rs.map fun r => .text r.name), Toml.Value.listOf? Route.ofValue?⟩
  truth := ⟨fun b => .one (.truth b), Toml.Value.boolean?⟩
  unitSize := ⟨fun n => .one (.number n.toNat), Settings.unitSize?⟩
  nonce := ⟨fun n => .one (.number n.toInt), RuntimeSettings.nonce?⟩
  seconds := ⟨fun n => .one (.number n.toNat), RuntimeSettings.seconds?⟩
  settings := ⟨Settings.entries, Settings.ofValue?⟩
  runtime := ⟨RuntimeSettings.entries, RuntimeSettings.ofValue?⟩
  app := ⟨AppSettings.document, AppSettings.ofValue?⟩

namespace AppSettings

/-- Settings as they are, unless they have a fault. -/
def validate (s : AppSettings) : Except CommandError Unit :=
  match s.fault? with
  | some fault => .error (.ofFault fault)
  | none => .ok ()

variable (F : Format)

def ofText (text : String) : Except CommandError AppSettings :=
  match (F.parse? text).bind F.app.read? with
  | none => .error .document
  | some s => s.validate.map fun _ => s

/-- Writes settings, whether or not they can be used. -/
def toText (s : AppSettings) : Except CommandError String :=
  match F.render? (F.app.write s) with
  | none => .error .rendering
  | some text => .ok text

def reloads (s : AppSettings) : Bool := ((s.toText F).bind (ofText F)).toOption = some s

end AppSettings

end RadioCentral
