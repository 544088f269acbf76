import RadioCentral.Toml.Value

/-!
A document while it is read. A table remembers how it came about, since that decides what may be added
to it: a table with a header or in braces is closed to keys with dots, and a table made by such keys
is closed to headers.
-/
namespace RadioCentral.Toml

inductive Style where
  /-- By a header of its own. -/
  | explicit
  /-- By a header of a table within it. -/
  | implicit
  /-- By a key with dots. -/
  | dotted
  deriving DecidableEq, Repr

inductive Node where
  | value (v : Value)
  | table (style : Style) (entries : List (String × Node))
  /-- The tables of one repeated header, in order. -/
  | tables (elements : List (List (String × Node)))

abbrev Entries := List (String × Node)

mutual

def Node.toValue : Node → Value
  | .value v => v
  | .table _ entries => .table (valuesOf entries)
  | .tables elements => .array (tablesOf elements)

def valuesOf : List (String × Node) → List (String × Value)
  | [] => []
  | entry :: entries => (entry.1, entry.2.toValue) :: valuesOf entries

def tablesOf : List (List (String × Node)) → List Value
  | [] => []
  | entries :: elements => .table (valuesOf entries) :: tablesOf elements

end

namespace Entries

def replace (key : String) (node : Node) (entries : Entries) : Entries :=
  entries.map fun entry => if entry.1 = key then (key, node) else entry

def push (key : String) (node : Node) (entries : Entries) : Entries := entries ++ [(key, node)]

def add? (key : String) (node : Node) (entries : Entries) : Option Entries :=
  if (entries.lookup key).isSome then none else some (entries.push key node)

/-- Changes the table at the end of a path, starting in a table of a given style. Tables that are
missing on the way are made; of repeated tables the last is meant. A path of keys with dots may not
lead through a table of another style. -/
def within? (withDots : Bool) :
    List String → (Style → Entries → Option Entries) → Style → Entries → Option Entries
  | [], change, style, entries => change style entries
  | key :: path, change, _, entries =>
    match entries.lookup key with
    | none =>
      let style := if withDots then Style.dotted else Style.implicit
      (within? withDots path change style []).map fun inner => entries.push key (.table style inner)
    | some (.table style inner) =>
      if withDots && style = .explicit then none
      else (within? withDots path change style inner).map fun inner =>
        entries.replace key (.table style inner)
    | some (.tables elements) =>
      (within? withDots path change .explicit (elements.getLast?.getD [])).map fun inner =>
        entries.replace key (.tables (elements.dropLast ++ [inner]))
    | some (.value _) => none

/-- Adds a value under a key with dots. Its last table must have been made by such keys. -/
def enter? (key : List String) (v : Value) : Style → Entries → Option Entries :=
  within? true key.dropLast (fun style entries =>
    if decide (style = .dotted) = key.dropLast.isEmpty then none
    else entries.add? (key.getLastD "") (.value v))

def openTable? (key : String) (_ : Style) (entries : Entries) : Option Entries :=
  match entries.lookup key with
  | none => some (entries.push key (.table .explicit []))
  | some (.table .implicit inner) => some (entries.replace key (.table .explicit inner))
  | some _ => none

def openElement? (key : String) (_ : Style) (entries : Entries) : Option Entries :=
  match entries.lookup key with
  | none => some (entries.push key (.tables [[]]))
  | some (.tables elements) => some (entries.replace key (.tables (elements ++ [[]])))
  | some _ => none

end Entries

def inlineTable? (entries : List (List String × Value)) : Option Value :=
  (entries.foldlM (fun table entry => Entries.enter? entry.1 entry.2 .explicit table) []).map
    fun table => .table (valuesOf table)

end RadioCentral.Toml
