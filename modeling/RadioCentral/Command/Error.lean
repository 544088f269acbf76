import RadioCentral.AppSettings
import RadioCentral.Bytes.Hex
import RadioCentral.Event

/-!
Errors that end a command.
-/
namespace RadioCentral

inductive CommandError where
  | central (error : CentralError)
  | radio (error : RadioError)
  | settings (text : String)
  | timedOut (text : String)
  | writeRejected (text : String)
  | file
  /-- A document is malformed or holds a value of the wrong type. -/
  | document
  /-- Settings have no written form. -/
  | rendering
  | payload (error : Hex.DecodeError)
  | uuid
  deriving DecidableEq, Repr

namespace CommandError

def kind : CommandError → String
  | central _ => "Central"
  | radio _ => "Platform"
  | settings _ => "Config"
  | timedOut _ => "Timeout"
  | writeRejected _ => "WriteRejected"
  | file => "Io"
  | document => "TomlParsing"
  | rendering => "TomlSerialization"
  | payload _ => "HexDecoding"
  | uuid => "InvalidUuid"

/-- The text of an error; the texts of the errors that others word are not kept. -/
def message? : CommandError → Option String
  | central error => some ("Central error: " ++ error.message)
  | radio error => some ("Radio error: " ++ error.message)
  | settings text => some ("Configuration error: " ++ text)
  | timedOut text => some ("Timed out: " ++ text)
  | writeRejected text => some ("Write rejected: " ++ text)
  | payload error => some ("Hex decoding error: " ++ error.message)
  | file | document | rendering | uuid => none

def ofFault (fault : SettingsFault) : CommandError := settings fault.message

end CommandError

end RadioCentral
