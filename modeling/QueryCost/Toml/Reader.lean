/-
  QueryCost.Toml.Reader — reading TOML documents.

  The format is TOML 1.0. Integers have 64 bits and a sign; a float past the largest
  number is refused above and infinite below. Arrays and tables in braces nest, and keys
  have parts, fewer than 80 deep.
-/

import QueryCost.Number.Numeral
import QueryCost.Text.Scan
import QueryCost.Toml.Basic

namespace QueryCost.Toml

open Scan

abbrev Reader := Scan Empty

variable {α : Type}

/-- Nesting and keys stay below this. -/
def depthLimit : Nat := 80

/-! ## Blanks -/

def isBlank (c : Char) : Bool := c == ' ' || c == '\t'

def blanks : Reader Unit := do let _ ← takeWhile isBlank

def newline : Reader Unit := char '\n' <|> word "\r\n"

/-- Visible characters, blanks among them, and everything outside ASCII. -/
def isPrintable (c : Char) : Bool := c == '\t' || ('\x20' ≤ c && c ≤ '\x7e') || '\x80' ≤ c

def comment : Reader Unit := do
  char '#'
  let _ ← takeWhile isPrintable

def atEnd : Reader Unit := notAhead any

/-- Blanks and a comment to the end of the line. -/
def lineEnd : Reader Unit := do
  blanks
  let _ ← optional comment
  newline <|> atEnd

/-- Blanks, comments and line ends, inside of arrays. -/
def gaps : Reader Unit := do
  let _ ← many ((do let _ ← takeWhile₁ isBlank) <|> newline <|> comment)

/-! ## Strings -/

/-- The character of this code point; surrogates are none. -/
def ofCodePoint (n : Nat) : Reader Char :=
  if n.isValidChar then pure (Char.ofNat n) else fail

def escape : Reader Char := do
  char '\\'
  match ← any with
  | 'b' => return '\x08'
  | 't' => return '\t'
  | 'n' => return '\n'
  | 'f' => return '\x0c'
  | 'r' => return '\r'
  | '"' => return '"'
  | '\\' => return '\\'
  | 'u' => ofCodePoint (← hexDigits 4)
  | 'U' => ofCodePoint (← hexDigits 8)
  | _ => fail

def isBasic (c : Char) : Bool := isPrintable c && c != '"' && c != '\\'

def isLiteral (c : Char) : Bool := isPrintable c && c != '\''

def basicString : Reader (List Char) := do
  char '"'
  let cs ← many (satisfy isBasic <|> escape)
  char '"'
  return cs

def literalString : Reader (List Char) := do
  char '\''
  let cs ← takeWhile isLiteral
  char '\''
  return cs

/-- A backslash at the end of a line, and all blanks and line ends after it. -/
def continuation : Reader (List Char) := do
  char '\\'
  blanks
  newline
  let _ ← many (newline <|> (do let _ ← takeWhile₁ isBlank))
  return []

/-- Text over several lines between triple quotes. A line end right after the opening
    is left out, and one or two quotes may stand anywhere, also right before the closing. -/
def severalLines (quote : Char) (piece : Reader (List Char)) : Reader (List Char) := do
  let single := char quote
  let double := chars [quote, quote]
  let triple := chars [quote, quote, quote]
  triple
  let _ ← optional newline
  let pieces ← many (piece <|>
    (do double; ahead piece; return [quote, quote]) <|>
    (do single; ahead piece; return [quote]))
  let atClose ← (do double; ahead triple; return [quote, quote]) <|>
    (do single; ahead triple; return [quote]) <|> pure []
  triple
  return pieces.flatten ++ atClose

def basicPiece : Reader (List Char) :=
  takeWhile₁ isBasic <|> continuation <|> (do return [← escape]) <|> (do newline; return ['\n'])

def literalPiece : Reader (List Char) := takeWhile₁ isLiteral <|> (do newline; return ['\n'])

def stringValue : Reader Value := do
  let cs ← severalLines '"' basicPiece <|> basicString <|> severalLines '\'' literalPiece <|> literalString
  return .string (String.ofList cs)

/-! ## Keys -/

def isBareKey (c : Char) : Bool :=
  ('a' ≤ c && c ≤ 'z') || ('A' ≤ c && c ≤ 'Z') || isDigit c || c == '_' || c == '-'

def simpleKey : Reader String := do
  return String.ofList (← basicString <|> literalString <|> takeWhile₁ isBareKey)

def keyPart : Reader String := do
  blanks
  let k ← simpleKey
  blanks
  return k

def keyPath : Reader KeyPath := do
  let first ← keyPart
  let rest ← many (do char '.'; keyPart)
  let all := first :: rest
  if all.length < depthLimit then return ⟨all.dropLast, all.getLastD first⟩ else fail

/-! ## Numbers -/

/-- Digits of a class, with single underscores between them. -/
def separatedDigits (isDigit : Char → Bool) : Reader (List Char) := do
  let first ← satisfy isDigit
  let rest ← many (satisfy isDigit <|> (do char '_'; satisfy isDigit))
  return first :: rest

def sign : Reader (Option Char) := optional (satisfy fun c => c == '+' || c == '-')

/-- Whole digits without leading zeros. -/
def wholeDigits : Reader (List Char) :=
  (do
    let first ← satisfy fun c => '1' ≤ c && c ≤ '9'
    let rest ← many (satisfy isDigit <|> (do char '_'; satisfy isDigit))
    return first :: rest) <|>
  (do return [← satisfy isDigit])

def integerOf (n : Int) : Reader Value :=
  if -9223372036854775808 ≤ n ∧ n ≤ 9223372036854775807 then pure (.integer n) else fail

/-- An integer after the mark of its base. -/
def basedInteger (mark : String) (base : Nat) (isDigit : Char → Bool) : Reader Value := do
  word mark
  integerOf (valueInBase base (← separatedDigits isDigit))

/-- No other value is tried once the mark of a base is read. -/
def integer : Reader Value :=
  basedInteger "0x" 16 isHexDigit <|>
  basedInteger "0o" 8 (fun c => '0' ≤ c && c ≤ '7') <|>
  basedInteger "0b" 2 (fun c => c == '0' || c == '1') <|>
  (do
    let negative := (← sign) == some '-'
    let n := digitsValue (← wholeDigits)
    integerOf (if negative then -n else n))

def exponentPart : Reader (List Char × Bool × List Char) := do
  let _ ← satisfy fun c => c == 'e' || c == 'E'
  let negative := (← sign) == some '-'
  return ([], negative, ← separatedDigits isDigit)

def floatOf (n : Numeral) : Reader Value :=
  match Binary64.ofDecimal? n.negative n.significand n.power with
  | some x => pure (.float (.finite x))
  | none => if n.negative then pure (.float (.infinity true)) else fail

def writtenFloat : Reader Value := do
  let negative := (← sign) == some '-'
  let whole ← wholeDigits
  (do
    let exponent ← exponentPart
    floatOf ⟨negative, whole, [], some exponent⟩) <|>
  (do
    char '.'
    let fraction ← separatedDigits isDigit
    let exponent ← optional exponentPart
    floatOf ⟨negative, whole, fraction, exponent⟩)

def specialFloat : Reader Value := do
  let negative := (← sign) == some '-'
  (do word "inf"; return .float (.infinity negative)) <|> (do word "nan"; return .float .nan)

/-! ## Dates -/

/-- `n` digits, as the number they write. -/
def digits (n : Nat) : Reader Nat := do
  return digitsValue (← (List.replicate n ()).mapM fun _ => satisfy isDigit)

def within (low high : Nat) (p : Reader Nat) : Reader Nat := do
  let n ← p
  if low ≤ n ∧ n ≤ high then return n else fail

def daysInMonth (year month : Nat) : Nat :=
  if month = 2 then
    if year % 4 = 0 ∧ (year % 100 ≠ 0 ∨ year % 400 = 0) then 29 else 28
  else if month = 4 ∨ month = 6 ∨ month = 9 ∨ month = 11 then 30
  else 31

def fullDate : Reader Unit := do
  let year ← digits 4
  char '-'
  let month ← within 1 12 (digits 2)
  char '-'
  let _ ← within 1 (daysInMonth year month) (digits 2)

def timeOfDay : Reader Unit := do
  let _ ← within 0 23 (digits 2)
  char ':'
  let _ ← within 0 59 (digits 2)
  char ':'
  let _ ← within 0 60 (digits 2)
  let _ ← optional (do char '.'; takeWhile₁ isDigit)

def timeOffset : Reader Unit :=
  (do let _ ← satisfy fun c => c == 'Z' || c == 'z') <|>
  (do
    let _ ← satisfy fun c => c == '+' || c == '-'
    let _ ← within 0 23 (digits 2)
    char ':'
    let _ ← within 0 59 (digits 2))

def dateTime : Reader Unit :=
  (do
    fullDate
    let _ ← optional (do
      let _ ← satisfy fun c => c == 'T' || c == 't' || c == ' '
      timeOfDay
      optional timeOffset)) <|>
  timeOfDay

/-- A date, a time, or both; kept as written. -/
def date : Reader Value := fun c =>
  match dateTime c with
  | none => none
  | some ((), after) =>
    some (.date (String.ofList (c.rest.take (c.rest.length - after.rest.length))), after)

/-! ## Values -/

def boolean : Reader Value :=
  (do word "true"; return .boolean true) <|> (do word "false"; return .boolean false)

/-- The elements before a closing mark, with a comma between two of them. -/
def commaSeparated (p : Reader α) : Reader (List α) := do
  match ← optional p with
  | none => return []
  | some a => return a :: (← many (do char ','; p))

def pairWith (value : Reader Value) : Reader (KeyPath × Value) := do
  let path ← keyPath
  char '='
  blanks
  return (path, ← value)

/-- A value that nests no others. -/
def scalar : Reader Value :=
  stringValue <|> boolean <|> date <|> writtenFloat <|> specialFloat <|> integer

/-- A value that nests at most `n` deep. -/
def valueAt : Nat → Reader Value
  | 0 => scalar
  | n + 1 =>
    scalar <|>
    (do
      char '['
      let items ← commaSeparated (do gaps; let v ← valueAt n; gaps; return v)
      if !items.isEmpty then
        let _ ← optional (char ',')
      gaps
      char ']'
      return .array items) <|>
    (do
      char '\x7b'
      let pairs ← commaSeparated (do
        let pair ← pairWith (valueAt n)
        blanks
        return pair)
      blanks
      char '\x7d'
      match ofBraces pairs with
      | some v => return v
      | none => fail)

def value : Reader Value := valueAt (depthLimit - 1)

/-! ## Documents -/

def pairLine : Reader Line := do
  let (path, v) ← pairWith value
  lineEnd
  return .pair path v

def headerLine : Reader Line := do
  char '['
  let path ← keyPath
  char ']'
  lineEnd
  return .header path

def repeatedHeaderLine : Reader Line := do
  word "[["
  let path ← keyPath
  word "]]"
  lineEnd
  return .repeatedHeader path

/-- A line that says nothing. -/
def emptyLine : Reader Unit :=
  newline <|> (do comment; newline <|> atEnd)

def line : Reader (Option Line) := do
  let l ← (do emptyLine; return none) <|> (do return some (← repeatedHeaderLine <|> headerLine <|> pairLine))
  blanks
  return l

def lines : Reader (List Line) := do
  let _ ← optional (char '\ufeff')
  blanks
  return (← many line).filterMap id

/-- Reads a document. -/
def parse? (text : String) : Option Entries := do
  let (all, _) ← run lines text
  ofLines all

end QueryCost.Toml
