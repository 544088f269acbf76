import RadioCentral.Bytes

/-!
A character between single quotes, for messages. What cannot be seen on the line is written as an
escape. Only characters below U+0100 reach a message, so the table of those without a visible form
ends there.
-/
namespace RadioCentral.Text

/-- Whether a character below U+0100 has no visible form: the control characters, the no-break space
and the soft hyphen. -/
def isInvisible (c : Char) : Bool :=
  c.toNat < 0x20 || (0x7f ≤ c.toNat && c.toNat ≤ 0xa0) || c.toNat == 0xad

def shortHex (n : Nat) : String := String.ofList (Nat.toDigits 16 n)

/-- A character below U+0100 as it stands between single quotes. -/
def escapedChar (c : Char) : String :=
  if c = '\x00' then "\\0"
  else if c = '\t' then "\\t"
  else if c = '\r' then "\\r"
  else if c = '\n' then "\\n"
  else if c = '\'' then "\\'"
  else if c = '\\' then "\\\\"
  else if isInvisible c then "\\u\x7b" ++ shortHex c.toNat ++ "\x7d"
  else String.singleton c

def quotedChar (c : Char) : String := "'" ++ escapedChar c ++ "'"

end RadioCentral.Text
