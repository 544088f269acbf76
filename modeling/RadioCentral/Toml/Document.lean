import RadioCentral.Toml.Value

/-!
Documents as they are written: sections of entries, whose values are scalars and lists of scalars. A
list of more than one takes a line for each.
-/
namespace RadioCentral.Toml

/-- A value without parts. Texts are written as they are, so they must need no escape. -/
inductive Scalar where
  | text (s : String)
  | number (n : Int)
  | truth (b : Bool)
  deriving DecidableEq, Repr

inductive Item where
  | one (s : Scalar)
  | many (ss : List Scalar)
  deriving DecidableEq, Repr

structure Section where
  name : String
  entries : List (String × Item)
  deriving DecidableEq, Repr

abbrev Document := List Section

/-- The largest number a document can hold; numbers have a sign and 64 bits. -/
def maxNumber : Nat := 0x7fffffff_ffffffff

namespace Scalar

def value : Scalar → Value
  | text s => .string s
  | number n => .integer n
  | truth b => .boolean b

def isWritable : Scalar → Bool
  | number n => -maxNumber ≤ n + 1 && n ≤ maxNumber
  | text _ | truth _ => true

def written : Scalar → String
  | text s => "\"" ++ s ++ "\""
  | number n => toString n
  | truth b => if b then "true" else "false"

end Scalar

namespace Item

def scalars : Item → List Scalar
  | one s => [s]
  | many ss => ss

def value : Item → Value
  | one s => s.value
  | many ss => .array (ss.map Scalar.value)

def written : Item → String
  | one s => s.written
  | many [] => "[]"
  | many [s] => "[" ++ s.written ++ "]"
  | many ss => "[\n" ++ String.join (ss.map fun s => "    " ++ s.written ++ ",\n") ++ "]"

end Item

namespace Section

def value (s : Section) : Value := .table (s.entries.map fun entry => (entry.1, entry.2.value))

def written (s : Section) : String :=
  "[" ++ s.name ++ "]\n" ++
    String.join (s.entries.map fun entry => entry.1 ++ " = " ++ entry.2.written ++ "\n")

end Section

namespace Document

def value (d : Document) : Value := .table (d.map fun s => (s.name, s.value))

def isWritable (d : Document) : Bool :=
  d.all fun s => s.entries.all fun entry => entry.2.scalars.all (·.isWritable)

/-- The text of a document, with an empty line between sections. -/
def written (d : Document) : String := "\n".intercalate (d.map Section.written)

end Document

end RadioCentral.Toml
