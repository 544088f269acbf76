import RadioCentral.Toml.Reading.Value

/-!
A document read from its text: first its statements, then the table that they build.
-/
namespace RadioCentral.Toml

inductive Statement where
  | entry (key : List String) (v : Value)
  /-- A header in brackets: the entries after it belong to this table. -/
  | header (key : List String)
  /-- A header in double brackets: it starts one more table under its key. -/
  | repeated (key : List String)

namespace Statement

/-- A statement up to the end of its value or header. -/
def ofChars? (cs : List Char) : Option (Statement × List Char) :=
  match cs with
  | '[' :: '[' :: rest => do
    let (key, cs) ← key? rest
    return (repeated key, ← after? ']' (← after? ']' cs))
  | '[' :: rest => do
    let (key, cs) ← key? rest
    return (header key, ← after? ']' cs)
  | cs => (keyValue? (value? maxDepth) cs).map fun (found, rest) => (entry found.1 found.2, rest)

/-- The statements of a text, each on lines of its own. -/
def list? (cs : List Char) : Option (List Statement) :=
  match skipBlank false cs with
  | [] => some []
  | cs' => do
    let (statement, rest) ← ofChars? cs'
    let rest ← lineEnd? rest
    if rest.length < cs.length then return statement :: (← list? rest) else none
termination_by cs.length

/-- What the statements so far have built, and the header that the next entries belong under. -/
structure Built where
  table : Entries := []
  path : List String := []

def step? (built : Built) : Statement → Option Built
  | entry key v =>
    (Entries.within? false built.path (Entries.enter? key v) .explicit built.table).map
      fun table => { built with table }
  | header key =>
    (Entries.within? false key.dropLast (Entries.openTable? (key.getLastD "")) .explicit built.table).map
      fun table => ⟨table, key⟩
  | repeated key =>
    (Entries.within? false key.dropLast (Entries.openElement? (key.getLastD "")) .explicit
      built.table).map fun table => ⟨table, key⟩

def build? (statements : List Statement) : Option Value :=
  (statements.foldlM step? {}).map fun built => .table (valuesOf built.table)

end Statement

/-- Reads a document. A mark of the byte order in front of it is ignored. -/
def Value.ofText? (text : String) : Option Value :=
  let cs := match text.toList with
    | '\ufeff' :: rest => rest
    | cs => cs
  (Statement.list? cs).bind Statement.build?

end RadioCentral.Toml
