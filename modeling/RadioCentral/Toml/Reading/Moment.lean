import RadioCentral.Toml.Reading.Number
import RadioCentral.Toml.Reading.Space

/-!
Dates and times of a document. What they say is never asked for, so a reader of one returns nothing but
the text after it.
-/
namespace RadioCentral.Toml

/-- A number of exactly so many digits, within a range. -/
def fixed? (width low high : Nat) (cs : List Char) : Option (Nat × List Char) :=
  let digits := cs.take width
  if digits.length = width ∧ digits.all isDecimal ∧ low ≤ numeral 10 digits ∧ numeral 10 digits ≤ high then
    some (numeral 10 digits, cs.drop width)
  else none

def isLeapYear (year : Nat) : Bool := year % 4 = 0 && (year % 100 ≠ 0 || year % 400 = 0)

def daysIn (year month : Nat) : Nat :=
  if month = 2 then if isLeapYear year then 29 else 28
  else if month ∈ [4, 6, 9, 11] then 30
  else 31

def date? (cs : List Char) : Option (List Char) := do
  let (year, cs) ← fixed? 4 0 9999 cs
  let (month, cs) ← fixed? 2 1 12 (← after? '-' cs)
  let (_, cs) ← fixed? 2 1 (daysIn year month) (← after? '-' cs)
  return cs

def hourMinute? (cs : List Char) : Option (List Char) := do
  let (_, cs) ← fixed? 2 0 23 cs
  let (_, cs) ← fixed? 2 0 59 (← after? ':' cs)
  return cs

/-- A fraction of a second, if there is one. -/
def skipFraction (cs : List Char) : List Char :=
  match cs with
  | '.' :: c :: rest => if isDecimal c then rest.dropWhile isDecimal else cs
  | _ => cs

/-- A time of day; a minute may have a leap second. -/
def time? (cs : List Char) : Option (List Char) := do
  let (_, cs) ← fixed? 2 0 60 (← after? ':' (← hourMinute? cs))
  return skipFraction cs

/-- The distance from universal time. -/
def offset? : List Char → Option (List Char)
  | [] => none
  | c :: rest =>
    if c = 'Z' || c = 'z' then some rest
    else if c = '+' || c = '-' then hourMinute? rest
    else none

/-- The time behind a date, with its offset if it has one. -/
def timeBehind? : List Char → Option (List Char)
  | [] => none
  | c :: rest =>
    if c = 'T' || c = 't' || c = ' ' then (time? rest).map fun cs => (offset? cs).getD cs else none

def moment? (cs : List Char) : Option (List Char) :=
  match date? cs with
  | some rest => some ((timeBehind? rest).getD rest)
  | none => time? cs

end RadioCentral.Toml
