import RadioCentral.Bytes.Hex
import RadioCentral.Toml.Value

/-!
Numbers of a document. Digits may have single underscores between them; integers have 64 bits and a
sign; a number with a fraction or an exponent must not be too large for a double.
-/
namespace RadioCentral.Toml

def isDecimal (c : Char) : Bool := '0' ≤ c && c ≤ '9'

/-- The digits that go on from a first one, each with an underscore before it or without, and the text
after them. -/
def digitsBehind (isDigit : Char → Bool) : List Char → List Char × List Char
  | [] => ([], [])
  | '_' :: c :: cs =>
    if isDigit c then
      let (digits, rest) := digitsBehind isDigit cs
      (c :: digits, rest)
    else ([], '_' :: c :: cs)
  | c :: cs =>
    if isDigit c then
      let (digits, rest) := digitsBehind isDigit cs
      (c :: digits, rest)
    else ([], c :: cs)

def digits? (isDigit : Char → Bool) : List Char → Option (List Char × List Char)
  | c :: cs =>
    if isDigit c then
      let (digits, rest) := digitsBehind isDigit cs
      some (c :: digits, rest)
    else none
  | [] => none

def numeral (base : Nat) (digits : List Char) : Nat :=
  digits.foldl (fun n c => base * n + (Hex.digitValue? c).getD 0) 0

def sign : List Char → Bool × List Char
  | '-' :: rest => (true, rest)
  | '+' :: rest => (false, rest)
  | cs => (false, cs)

def whole? : List Char → Option (List Char × List Char)
  | '0' :: rest => some (['0'], rest)
  | cs => digits? isDecimal cs

def fraction? : List Char → Option (List Char × List Char)
  | '.' :: rest => digits? isDecimal rest
  | _ => none

def exponent? : List Char → Option (Int × List Char)
  | c :: rest =>
    if c = 'e' || c = 'E' then
      let (minus, rest) := sign rest
      (digits? isDecimal rest).map fun (digits, rest) =>
        let n : Int := numeral 10 digits
        (if minus then -n else n, rest)
    else none
  | [] => none

/-- Half a unit above the largest double: numbers from here on are rounded to infinity. -/
def doubleLimit : Nat := (1 <<< 1024) - (1 <<< 970)

/-- Whether the number that digits write, times a power of ten, is too large for a double. Numbers with
more than 310 digits before the point all are. -/
def overflows (digits : List Char) (exponent : Int) : Bool :=
  let n := numeral 10 digits
  let places : Int := (Nat.toDigits 10 n).length + exponent
  if n = 0 || places < 300 then false
  else if 310 < places then true
  else doubleLimit * Nat.pow 10 (-exponent).toNat ≤ n * Nat.pow 10 exponent.toNat

/-- A number with a fraction or an exponent, or both. A negative one may be as large as it likes. -/
def double? (minus : Bool) (whole : List Char) (cs : List Char) : Option (Value × List Char) :=
  let found := match fraction? cs with
    | some (digits, rest) =>
      let (exponent, rest) := (exponent? rest).getD (0, rest)
      some (whole ++ digits, exponent - digits.length, rest)
    | none => (exponent? cs).map fun (exponent, rest) => (whole, exponent, rest)
  found.bind fun (digits, exponent, rest) =>
    if !minus && overflows digits exponent then none else some (.float, rest)

def integerOf? (n : Int) : Option Value :=
  if -0x80000000_00000000 ≤ n ∧ n < 0x80000000_00000000 then some (.integer n) else none

def decimal? (cs : List Char) : Option (Value × List Char) :=
  let (minus, rest) := sign cs
  (whole? rest).bind fun (digits, rest) =>
    (double? minus digits rest).or
      ((integerOf? (if minus then -numeral 10 digits else numeral 10 digits)).map (·, rest))

def based? (base : Nat) (isDigit : Char → Bool) (cs : List Char) : Option (Value × List Char) :=
  (digits? isDigit cs).bind fun (digits, rest) => (integerOf? (numeral base digits)).map (·, rest)

/-- Infinity or no number at all, with or without a sign. -/
def special? (cs : List Char) : Option (Value × List Char) :=
  match (sign cs).2 with
  | 'i' :: 'n' :: 'f' :: rest | 'n' :: 'a' :: 'n' :: rest => some (.float, rest)
  | _ => none

def number? : List Char → Option (Value × List Char)
  | '0' :: 'x' :: rest => based? 16 (fun c => (Hex.digitValue? c).isSome) rest
  | '0' :: 'o' :: rest => based? 8 (fun c => '0' ≤ c && c ≤ '7') rest
  | '0' :: 'b' :: rest => based? 2 (fun c => c = '0' || c = '1') rest
  | cs => (decimal? cs).or (special? cs)

end RadioCentral.Toml
