/-
  QueryCost.Language.Lexical — reading names, values, types and directives.

  Blanks, commas and comments may stand before every part, never inside a name, a
  number, a string or a type. Words have no boundary: a keyword is read wherever its
  letters stand, so `trueb` is the value `true` with a `b` after it.

  A number that no 64 bits hold fits the grammar. It is reported where it stands and
  reading goes on.
-/

import QueryCost.Language.Basic
import QueryCost.Language.BlockString
import QueryCost.Number.Scan

namespace QueryCost.Language

open Scan

/-- Faults of a text that can be a number out of range. -/
class HasNumberFault (φ : Type) where
  number : NumeralFault → Position → φ

variable {φ ν : Type}

/-! ## Blanks and names -/

def isLineEnd (c : Char) : Bool := c == '\n' || c == '\r'

def isBlank (c : Char) : Bool := c == ' ' || c == ',' || c == '\t' || c == '\ufeff' || isLineEnd c

/-- What follows blanks and comments, and where that is. A comment goes to the end of
    its line. -/
def afterBlanks (inComment : Bool) : List Char → Position → List Char × Position
  | [], pos => ([], pos)
  | c :: rest, pos =>
    if inComment then afterBlanks (!isLineEnd c) rest (pos.after c)
    else if c == '#' then afterBlanks true rest (pos.after c)
    else if isBlank c then afterBlanks false rest (pos.after c)
    else (c :: rest, pos)

def blanks : Scan φ Unit := fun c =>
  let (rest, pos) := afterBlanks false c.rest c.position
  some ((), { c with rest := rest, position := pos })

/-- A keyword or a punctuation mark, with the blanks before it. -/
def mark (s : String) : Scan φ Unit := do blanks; word s

/-- The place of the next part. -/
def place : Scan φ Position := do blanks; here

def isNameStart (c : Char) : Bool := ('a' ≤ c && c ≤ 'z') || ('A' ≤ c && c ≤ 'Z') || c == '_'

/-- A name that begins right here. -/
def nameHere : Scan φ String := do
  let first ← satisfy isNameStart
  return String.ofList (first :: (← takeWhile fun c => isNameStart c || isDigit c))

def name : Scan φ String := do blanks; nameHere

/-! ## Strings -/

def stringEscape : Scan φ Char := do
  char '\\'
  match ← any with
  | '"' => return '"'
  | '\\' => return '\\'
  | '/' => return '/'
  | 'b' => return '\x08'
  | 'f' => return '\x0c'
  | 'n' => return '\n'
  | 'r' => return '\r'
  | 't' => return '\t'
  | 'u' =>
    let unit ← hexDigits 4
    if 0xD800 ≤ unit ∧ unit < 0xE000 then fail else return Char.ofNat unit
  | _ => fail

def plainString : Scan φ String := do
  char '"'
  let cs ← many (satisfy (fun c => c != '"' && c != '\\' && !isLineEnd c) <|> stringEscape)
  char '"'
  return String.ofList cs

/-- An escaped triple quote does not end the string, and keeps its backslash. -/
def blockString : Scan φ String := do
  word "\"\"\""
  let pieces ← many ((do word "\\\"\"\""; return ['\\', '"', '"', '"']) <|>
    (do notAhead (word "\"\"\""); return [← any]))
  word "\"\"\""
  return BlockString.value pieces.flatten

def string : Scan φ String := do blanks; blockString <|> plainString

/-! ## Values -/

def boolean : Scan φ Bool :=
  (do mark "true"; return true) <|> (do mark "false"; return false)

/-- An enum value begins with none of the words `true`, `false` and `null`. -/
def enumName : Scan φ String := do
  notAhead boolean
  notAhead (mark "null")
  name

variable [HasNumberFault φ]

/-- A number; no name may begin where it ends. -/
def number : Scan φ Number := do
  let pos ← place
  let n ← Numeral.scan
  notAhead (satisfy isNameStart)
  match n.value with
  | .ok v => return v
  | .error fault =>
    report (HasNumberFault.number fault pos)
    return .ofSize 0

/-- A value whose variables are read by `varName`, nesting at most `n` deep. -/
def valueAt (varName : Scan φ ν) : Nat → Scan φ (Value ν)
  | 0 => fail
  | n + 1 =>
    (do return .var (← varName)) <|>
    (do return .number (← number)) <|>
    (do return .string (← string)) <|>
    (do return .boolean (← boolean)) <|>
    (do mark "null"; return .null) <|>
    (do return .enum (← enumName)) <|>
    (do
      mark "["
      let items ← many (valueAt varName n)
      mark "]"
      return .list items) <|>
    (do
      mark "\x7b"
      let fields ← many (do
        let field ← name
        mark ":"
        return (field, ← valueAt varName n))
      mark "\x7d"
      return .object (Entries.ofPairs fields))

def variableName : Scan φ String := do mark "$"; name

/-- A value in a query. -/
def value : Scan φ (Value String) := nested (valueAt variableName)

/-- A value where no variable may stand. -/
def constant : Scan φ Constant := nested (valueAt fail)

def defaultValue : Scan φ Constant := do mark "="; constant

/-! ## Arguments and directives -/

/-- `(name: value …)`, at least one. -/
def argumentList (value : Scan φ (Value ν)) : Scan φ (List (String × Value ν)) := do
  mark "("
  let arguments ← many₁ (do
    let argument ← name
    mark ":"
    return (argument, ← value))
  mark ")"
  return arguments

def directive (value : Scan φ (Value ν)) : Scan φ (Directive ν) := do
  mark "@"
  let directive ← name
  let arguments ← optional (argumentList value)
  return ⟨directive, arguments.getD []⟩

/-- Any number of directives. -/
def directives : Scan φ (List (Directive String)) := many (directive value)

def constantDirectives : Scan φ (List (Directive Empty)) := many (directive constant)

/-- Directives where at least one has to stand. -/
def someConstantDirectives : Scan φ (List (Directive Empty)) := many₁ (directive constant)

/-! ## Types -/

omit [HasNumberFault φ] in
/-- A type that begins right here, nesting at most `n` deep. -/
def typeAt : Nat → Scan φ TypeRef
  | 0 => fail
  | n + 1 => do
    let bare : Bool → TypeRef ← (do return .named (← nameHere)) <|> (do
      char '['
      let inner ← typeAt n
      char ']'
      return .list inner)
    return bare (!(← taken (char '!')))

omit [HasNumberFault φ] in
def typeRef : Scan φ TypeRef := do blanks; nested typeAt

omit [HasNumberFault φ] in
def operationKind : Scan φ OperationKind :=
  (do mark "query"; return .query) <|>
  (do mark "mutation"; return .mutation) <|>
  (do mark "subscription"; return .subscription)

end QueryCost.Language
