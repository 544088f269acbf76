import RadioCentral.Bytes
import RadioCentral.Text.Quoted

/-!
Hexadecimal text of byte strings. Writing uses two lower-case digits a byte; reading takes digits of
either case and says what is wrong with a text that is none.
-/
namespace RadioCentral.Hex

def digit (n : Nat) : Char :=
  if n < 10 then Char.ofNat ('0'.toNat + n) else Char.ofNat ('a'.toNat + (n - 10))

def digitValue? (c : Char) : Option Nat :=
  if '0' ≤ c ∧ c ≤ '9' then some (c.toNat - '0'.toNat)
  else if 'a' ≤ c ∧ c ≤ 'f' then some (c.toNat - 'a'.toNat + 10)
  else if 'A' ≤ c ∧ c ≤ 'F' then some (c.toNat - 'A'.toNat + 10)
  else none

/-- The `width` lowest digits of a number, most significant digit first. -/
def digits : (width : Nat) → Nat → List Char
  | 0, _ => []
  | width + 1, n => digits width (n / 16) ++ [digit (n % 16)]

def value? (cs : List Char) : Option Nat :=
  cs.foldlM (fun n c => (digitValue? c).map (16 * n + ·)) 0

def encode (bytes : Bytes) : String :=
  String.ofList (bytes.flatMap fun b => digits 2 b.toNat)

/-- Why a text is not the hexadecimal form of a byte string. -/
inductive DecodeError where
  /-- The text holds an odd number of bytes. -/
  | oddLength
  /-- The byte at this place is no digit. -/
  | notADigit (byte : UInt8) (position : Nat)
  deriving DecidableEq, Repr

def DecodeError.message : DecodeError → String
  | .oddLength => "Odd number of digits"
  | .notADigit byte position =>
    "Invalid character " ++ Text.quotedChar (Char.ofNat byte.toNat) ++
      " at position " ++ toString position

def digitAt (byte : UInt8) (position : Nat) : Except DecodeError Nat :=
  match digitValue? (Char.ofNat byte.toNat) with
  | some n => .ok n
  | none => .error (.notADigit byte position)

def decodePairs : Bytes → (position : Nat) → Except DecodeError Bytes
  | high :: low :: rest, position => do
    let h ← digitAt high position
    let l ← digitAt low (position + 1)
    let bytes ← decodePairs rest (position + 2)
    return UInt8.ofNat (16 * h + l) :: bytes
  | _, _ => .ok []

/-- Reads a text; an odd length is reported before any digit is looked at. -/
def decode (text : String) : Except DecodeError Bytes :=
  let bytes := text.toUTF8.data.toList
  if bytes.length % 2 = 1 then .error .oddLength else decodePairs bytes 0

end RadioCentral.Hex
