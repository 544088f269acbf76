import RadioCentral.Bytes.Hex
import RadioCentral.Toml.Reading.Space

/-!
Strings in quotes. Between double quotes a backslash starts an escape, between single quotes it is a
character like any other. Three quotes hold a string of several lines.
-/
namespace RadioCentral.Toml

def putFront (cs : List Char) : Option (List Char × List Char) → Option (List Char × List Char) :=
  Option.map fun found => (cs ++ found.1, found.2)

/-- The character that an escape of one letter stands for. -/
def shortEscape? : Char → Option Char
  | 'b' => some '\x08'
  | 't' => some '\t'
  | 'n' => some '\n'
  | 'f' => some '\x0c'
  | 'r' => some '\r'
  | '"' => some '"'
  | '\\' => some '\\'
  | _ => none

/-- The character with the code that digits write; surrogates and what lies beyond the last code point
are none. -/
def charOfDigits? (digits : List Char) : Option Char :=
  (Hex.value? digits).bind fun n => if h : n.isValidChar then some (Char.ofNatAux n h) else none

/-- What an escape stands for, without its backslash, and the text after it. -/
def escape? : List Char → Option (Char × List Char)
  | 'u' :: a :: b :: c :: d :: rest => (charOfDigits? [a, b, c, d]).map (·, rest)
  | 'U' :: a :: b :: c :: d :: e :: f :: g :: h :: rest =>
    (charOfDigits? [a, b, c, d, e, f, g, h]).map (·, rest)
  | c :: rest => (shortEscape? c).map (·, rest)
  | [] => none

theorem length_of_escape? {cs rest : List Char} {c : Char} (h : escape? cs = some (c, rest)) :
    rest.length < cs.length := by
  have front {c? : Option Char} {tail : List Char} (h : c?.map (·, tail) = some (c, rest)) : tail = rest := by
    obtain ⟨_, _, he⟩ := Option.map_eq_some_iff.1 h
    exact (Prod.mk.inj he).2
  unfold escape? at h
  split at h
  · simp only [← front h, List.length_cons]; omega
  · simp only [← front h, List.length_cons]; omega
  · simp only [← front h, List.length_cons]; omega
  · cases h

/-- The rest of a string in double quotes and the text after it. -/
def basic? (cs : List Char) : Option (List Char × List Char) :=
  match cs with
  | [] => none
  | '"' :: rest => some ([], rest)
  | '\\' :: rest =>
    match _h : escape? rest with
    | some (c, rest) => putFront [c] (basic? rest)
    | none => none
  | c :: rest => if isText c then putFront [c] (basic? rest) else none
termination_by cs.length
decreasing_by
  · exact Nat.lt_succ_of_lt (length_of_escape? _h)
  · exact Nat.lt_succ_self _

/-- The rest of a string in single quotes and the text after it. -/
def literal? : List Char → Option (List Char × List Char)
  | [] => none
  | '\'' :: rest => some ([], rest)
  | c :: rest => if isText c then putFront [c] (literal? rest) else none

/-- What comes after three closing quotes: up to two more quotes, which belong to the string, and the
text after them. -/
def closing (quote : Char) (cs : List Char) : List Char × List Char :=
  let more := (cs.take 2).takeWhile fun c => c = quote
  (more, cs.drop more.length)

/-- The rest of a string of several lines in double quotes and the text after it. A backslash at the end
of a line drops the line end and all space and line ends after it. -/
def basicBlock? (dropping : Bool) (cs : List Char) : Option (List Char × List Char) :=
  match cs with
  | [] => none
  | '"' :: '"' :: '"' :: rest => some (closing '"' rest)
  | '\n' :: rest => if dropping then basicBlock? true rest else putFront ['\n'] (basicBlock? false rest)
  | '\r' :: '\n' :: rest =>
    if dropping then basicBlock? true rest else putFront ['\n'] (basicBlock? false rest)
  | '\\' :: rest =>
    if (newline? (skipSpaces rest)).isSome then basicBlock? true rest
    else
      match _h : escape? rest with
      | some (c, rest) => putFront [c] (basicBlock? false rest)
      | none => none
  | c :: rest =>
    if dropping && isSpace c then basicBlock? true rest
    else if isText c then putFront [c] (basicBlock? false rest)
    else none
termination_by cs.length
decreasing_by
  · exact Nat.lt_succ_self _
  · exact Nat.lt_succ_self _
  · exact Nat.lt_succ_of_lt (Nat.lt_succ_self _)
  · exact Nat.lt_succ_of_lt (Nat.lt_succ_self _)
  · exact Nat.lt_succ_self _
  · exact Nat.lt_succ_of_lt (length_of_escape? _h)
  · exact Nat.lt_succ_self _
  · exact Nat.lt_succ_self _

/-- The rest of a string of several lines in single quotes and the text after it. -/
def literalBlock? : List Char → Option (List Char × List Char)
  | [] => none
  | '\'' :: '\'' :: '\'' :: rest => some (closing '\'' rest)
  | '\n' :: rest => putFront ['\n'] (literalBlock? rest)
  | '\r' :: '\n' :: rest => putFront ['\n'] (literalBlock? rest)
  | c :: rest => if isText c then putFront [c] (literalBlock? rest) else none

/-- A line end right after the opening quotes belongs to no string. -/
def dropFirstNewline (cs : List Char) : List Char := (newline? cs).getD cs

/-- A string of one line in either kind of quotes. -/
def quoted? : List Char → Option (List Char × List Char)
  | '"' :: rest => basic? rest
  | '\'' :: rest => literal? rest
  | _ => none

def string? : List Char → Option (List Char × List Char)
  | '"' :: '"' :: '"' :: rest => basicBlock? false (dropFirstNewline rest)
  | '\'' :: '\'' :: '\'' :: rest => literalBlock? (dropFirstNewline rest)
  | cs => quoted? cs

end RadioCentral.Toml
