import RadioCentral.Toml.Reading.Quoted

/-!
Keys, and lists whose items have a separator between each two.
-/
namespace RadioCentral.Toml

/-- One or more items with separators between them. A separator that no item follows is left. -/
def sepBy? {α : Type} (item? : List Char → Option (α × List Char))
    (separator? : List Char → Option (List Char)) (cs : List Char) : Option (List α × List Char) :=
  (item? cs).map fun (first, rest) =>
    match separator? rest with
    | none => ([first], rest)
    | some next =>
      if next.length < cs.length then
        match sepBy? item? separator? next with
        | none => ([first], rest)
        | some (more, rest) => (first :: more, rest)
      else ([first], rest)
termination_by cs.length

def isBare (c : Char) : Bool := c.isAlphanum || c = '_' || c = '-'

/-- A key without dots: a word or a string of one line. -/
def keyPart? (cs : List Char) : Option (String × List Char) :=
  match cs with
  | '"' :: _ | '\'' :: _ => (quoted? cs).map fun (text, rest) => (String.ofList text, rest)
  | _ =>
    let word := cs.takeWhile isBare
    if word.isEmpty then none else some (String.ofList word, cs.dropWhile isBare)

/-- A part of a key with the space around it. -/
def spacedPart? (cs : List Char) : Option (String × List Char) :=
  (keyPart? (skipSpaces cs)).map fun (part, rest) => (part, skipSpaces rest)

/-- A key can have no more parts than this. -/
def maxParts : Nat := 79

/-- A key: parts with dots between them. -/
def key? (cs : List Char) : Option (List String × List Char) :=
  (sepBy? spacedPart? (after? '.') cs).bind fun (parts, rest) =>
    if parts.length ≤ maxParts then some (parts, rest) else none

end RadioCentral.Toml
