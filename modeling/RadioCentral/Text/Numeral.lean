/-!
Whole numbers in decimal: a sign or none and at least one digit, nothing else.
-/
namespace RadioCentral.Text

/-- The number that digits write, if there is at least one and nothing else. -/
def natOfDigits? (cs : List Char) : Option Nat :=
  if cs.isEmpty || !cs.all Char.isDigit then none
  else some (cs.foldl (fun n c => 10 * n + (c.toNat - '0'.toNat)) 0)

/-- A number that may have a plus in front. -/
def nat? (text : String) : Option Nat :=
  match text.toList with
  | '+' :: digits => natOfDigits? digits
  | digits => natOfDigits? digits

def int? (text : String) : Option Int :=
  match text.toList with
  | '-' :: digits => (natOfDigits? digits).map fun n => -(n : Int)
  | _ => (nat? text).map Int.ofNat

end RadioCentral.Text
