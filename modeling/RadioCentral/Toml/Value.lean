/-!
The values of a settings document. A table keeps its entries in the order in which they were written
and holds each key once.
-/
namespace RadioCentral.Toml

inductive Value where
  | string (text : String)
  | integer (n : Int)
  /-- A number with a fraction or an exponent; its value is never asked for. -/
  | float
  | boolean (b : Bool)
  /-- A date, a time or both; its value is never asked for. -/
  | datetime
  | array (elements : List Value)
  | table (entries : List (String × Value))
  deriving BEq, Repr, Inhabited

/-- The elements of an array and nothing of any other value. -/
def Value.elements? : Value → Option (List Value)
  | array elements => some elements
  | _ => none

def Value.boolean? : Value → Option Bool
  | boolean b => some b
  | _ => none

def Value.integerIn? (low high : Int) : Value → Option Int
  | integer n => if low ≤ n ∧ n ≤ high then some n else none
  | _ => none

/-- The values that stand for the named fields of a record, each by its name in a table or by its place
in an array. What a table or an array holds beyond the fields is ignored, and so is what a date says. -/
def Value.fields? (names : List String) : Value → Option (List (Option Value))
  | table entries => some (names.map fun name => entries.lookup name)
  | array elements => some ((List.range names.length).map fun i => elements[i]?)
  | datetime => some (names.map fun _ => none)
  | _ => none

def Value.isVacant : Value → Bool
  | array elements => elements.isEmpty
  | table entries => entries.isEmpty
  | _ => false

/-- The name a value stands for: a string, or the only key of a table, with nothing under it. -/
def Value.name? : Value → Option String
  | string text => some text
  | table [(name, value)] => if value.isVacant then some name else none
  | _ => none

end RadioCentral.Toml
