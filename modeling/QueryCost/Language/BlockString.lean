/-
  QueryCost.Language.BlockString — strings over several lines.

  A string between triple quotes is written with the indentation of the text around it.
  Its value leaves out blank lines at either end and, on every line but the one the
  string begins on, the indentation all lines share. Nothing in it is an escape.
-/

namespace QueryCost.BlockString

/-- The lines of a text; a carriage return and a line feed after it end one line. -/
def lines : List Char → List (List Char)
  | [] => [[]]
  | '\r' :: '\n' :: rest => [] :: lines rest
  | '\r' :: rest => [] :: lines rest
  | '\n' :: rest => [] :: lines rest
  | c :: rest =>
    match lines rest with
    | [] => [[c]]
    | line :: more => (c :: line) :: more

def isIndent (c : Char) : Bool := c == ' ' || c == '\t'

/-- The width of a line's indentation; blank lines have none. -/
def indent? (line : List Char) : Option Nat :=
  if line.all isIndent then none else some (line.takeWhile isIndent).length

/-- The least indentation of the lines after the first that have one, or zero. -/
def commonIndent (ls : List (List Char)) : Nat := ((ls.drop 1).filterMap indent?).min?.getD 0

/-- A line without its first `n` characters; a shorter one stays whole. -/
def unindent (n : Nat) (line : List Char) : List Char :=
  if n ≤ line.length then line.drop n else line

def trimBlank (ls : List (List Char)) : List (List Char) :=
  ((ls.dropWhile (·.all isIndent)).reverse.dropWhile (·.all isIndent)).reverse

/-- The value of what stands between the triple quotes. -/
def value (raw : List Char) : String :=
  let ls := lines raw
  let n := commonIndent ls
  let shifted := match ls with
    | [] => []
    | first :: rest => first :: rest.map (unindent n)
  "\n".intercalate ((trimBlank shifted).map String.ofList)

end QueryCost.BlockString
