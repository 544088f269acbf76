import RadioCentral.Uuid
import RadioCentral.Bytes.Hex

/-!
Text forms of identifiers. The written form is lower case with hyphens. The forms that are read are
32 digits, the hyphenated form, that form in braces, and that form after the prefix of a uniform
resource name.
-/
namespace RadioCentral.Uuid

def groups : List Nat := [8, 4, 4, 4, 12]

/-- Puts a hyphen between groups of the given lengths. -/
def hyphenate : List Nat → List Char → List Char
  | [], cs => cs
  | [_], cs => cs
  | n :: rest, cs => cs.take n ++ '-' :: hyphenate rest (cs.drop n)

/-- Takes the hyphens out again; `none` unless each stands where it belongs. -/
def unhyphenate : List Nat → List Char → Option (List Char)
  | [], cs => some cs
  | [_], cs => some cs
  | n :: rest, cs =>
    match cs.drop n with
    | '-' :: tail => (unhyphenate rest tail).map (cs.take n ++ ·)
    | _ => none

def ofDigits? (cs : List Char) : Option Uuid :=
  if cs.length = 32 then (Hex.value? cs).map ofNat else none

def ofHyphenated? (cs : List Char) : Option Uuid :=
  if cs.length = 36 then (unhyphenate groups cs).bind ofDigits? else none

/-- The prefixes that mark an identifier as a uniform resource name. -/
def urnPrefixes : List (List Char) := ["urn:uuid:".toList, "URN:UUID:".toList]

def ofText? (text : String) : Option Uuid :=
  let cs := text.toList
  match cs.length with
  | 32 => ofDigits? cs
  | 36 => ofHyphenated? cs
  | 38 => if cs.head? = some '{' ∧ cs.getLast? = some '}' then ofHyphenated? (cs.drop 1).dropLast else none
  | 45 => if cs.take 9 ∈ urnPrefixes then ofHyphenated? (cs.drop 9) else none
  | _ => none

def text (u : Uuid) : String := String.ofList (hyphenate groups (Hex.digits 32 u.toNat))

instance : ToString Uuid := ⟨text⟩

end RadioCentral.Uuid
