import RadioCentral.Toml.Node
import RadioCentral.Toml.Reading.Key
import RadioCentral.Toml.Reading.Moment

/-!
Values of a document. Arrays may run over several lines and end in a comma; tables in braces may do
neither.
-/
namespace RadioCentral.Toml

def boolean? : List Char → Option (Value × List Char)
  | 't' :: 'r' :: 'u' :: 'e' :: rest => some (.boolean true, rest)
  | 'f' :: 'a' :: 'l' :: 's' :: 'e' :: rest => some (.boolean false, rest)
  | _ => none

def scalar? (cs : List Char) : Option (Value × List Char) :=
  match string? cs with
  | some (text, rest) => some (.string (String.ofList text), rest)
  | none =>
    match moment? cs with
    | some rest => some (.datetime, rest)
    | none => (boolean? cs).or (number? cs)

section

variable (inner? : List Char → Option (Value × List Char))

/-- An element of an array with the blank space around it. -/
def element? (cs : List Char) : Option (Value × List Char) :=
  (inner? (skipBlank false cs)).map fun (v, rest) => (v, skipBlank false rest)

/-- An array behind its opening bracket. -/
def array? (cs : List Char) : Option (Value × List Char) :=
  let (elements, rest) := (sepBy? (element? inner?) (after? ',') cs).getD ([], cs)
  let rest := if elements.isEmpty then rest else (after? ',' rest).getD rest
  (after? ']' (skipBlank false rest)).map (.array elements, ·)

def keyValue? (cs : List Char) : Option ((List String × Value) × List Char) := do
  let (key, cs) ← key? cs
  let (v, cs) ← inner? (skipSpaces (← after? '=' cs))
  return ((key, v), skipSpaces cs)

/-- A table behind its opening brace. -/
def braces? (cs : List Char) : Option (Value × List Char) := do
  let (entries, cs) := (sepBy? (keyValue? inner?) (after? ',') cs).getD ([], cs)
  let cs ← after? '}' (skipSpaces cs)
  return (← inlineTable? entries, cs)

end

/-- A value with arrays and braces nested to at most a given depth. -/
def value? : (depth : Nat) → List Char → Option (Value × List Char)
  | depth + 1, '[' :: rest => array? (value? depth) rest
  | depth + 1, '{' :: rest => braces? (value? depth) rest
  | _, cs => scalar? cs

/-- Arrays and braces can be nested no deeper. -/
def maxDepth : Nat := 79

end RadioCentral.Toml
