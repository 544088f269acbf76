import RadioCentral.Bytes.Hex
import RadioCentral.Event

/-!
One line of text for each report.
-/
namespace RadioCentral

def Report.describe : Report → String
  | .connected a (some size) => "+ " ++ a.text ++ " ready (unit size " ++ toString size.toNat ++ ")"
  | .connected a none => "+ " ++ a.text ++ " ready"
  | .disconnected a => "- " ++ a.text ++ " disconnected"
  | .dataReceived a data =>
    "< " ++ a.text ++ " [" ++ toString data.length ++ "] " ++ Hex.encode data
  | .dataSent a data none => "> " ++ a.text ++ " [" ++ toString data.length ++ "] sent"
  | .dataSent a data (some e) =>
    "> " ++ a.text ++ " [" ++ toString data.length ++ "] failed: " ++ e.message

end RadioCentral
