/-!
White space, line ends and comments of a document. Each function takes what it knows off the front of a
text and returns the rest.
-/
namespace RadioCentral.Toml

def isSpace (c : Char) : Bool := c = ' ' || c = '\t'

/-- What may stand in comments and strings: every character but the control characters, of which only
the tab may. -/
def isText (c : Char) : Bool := c = '\t' || (0x20 ≤ c.toNat && c.toNat ≠ 0x7f)

def skipSpaces (cs : List Char) : List Char := cs.dropWhile isSpace

def after? (c : Char) : List Char → Option (List Char)
  | d :: rest => if d = c then some rest else none
  | [] => none

def newline? : List Char → Option (List Char)
  | '\n' :: rest => some rest
  | '\r' :: '\n' :: rest => some rest
  | _ => none

/-- The text after the rest of a line that holds nothing but space and a comment. -/
def lineEnd? (cs : List Char) : Option (List Char) :=
  let rest := match skipSpaces cs with
    | '#' :: comment => comment.dropWhile isText
    | rest => rest
  if rest.isEmpty then some [] else newline? rest

/-- Skips space, line ends and comments, starting inside a comment or outside one. -/
def skipBlank (inComment : Bool) : List Char → List Char
  | [] => []
  | '\n' :: cs => skipBlank false cs
  | '\r' :: '\n' :: cs => skipBlank false cs
  | c :: cs =>
    if inComment then if isText c then skipBlank true cs else c :: cs
    else if isSpace c then skipBlank false cs
    else if c = '#' then skipBlank true cs
    else c :: cs

end RadioCentral.Toml
