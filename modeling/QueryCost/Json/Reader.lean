/-
  QueryCost.Json.Reader — reading JSON texts.

  The format is taken at its word: no comments, no commas before a closing bracket, no
  control characters in strings, no escapes for half a surrogate pair, nothing but
  blanks after the value. A name that an object repeats keeps its first place and takes
  its last value.
-/

import QueryCost.Json.Basic
import QueryCost.Number.Scan
import QueryCost.Table

namespace QueryCost.Json

open Scan

abbrev Reader := Scan Empty

/-- How deep arrays and objects may nest. -/
def depthLimit : Nat := 127

def blanks : Reader Unit := do
  let _ ← takeWhile fun c => c == ' ' || c == '\n' || c == '\r' || c == '\t'

/-- A mark, with the blanks before it. -/
def mark (c : Char) : Reader Unit := do blanks; char c

/-- The character an escape stands for, after its `\u`: one code unit, or the two of a
    surrogate pair. -/
def unicodeEscape : Reader Char := do
  let unit ← hexDigits 4
  if 0xD800 ≤ unit ∧ unit < 0xDC00 then
    word "\\u"
    let low ← hexDigits 4
    if 0xDC00 ≤ low ∧ low < 0xE000 then
      return Char.ofNat (0x10000 + (unit - 0xD800) * 0x400 + (low - 0xDC00))
    else fail
  else if 0xDC00 ≤ unit ∧ unit < 0xE000 then fail
  else return Char.ofNat unit

def escape : Reader Char := do
  char '\\'
  match ← any with
  | '"' => return '"'
  | '\\' => return '\\'
  | '/' => return '/'
  | 'b' => return '\x08'
  | 'f' => return '\x0c'
  | 'n' => return '\n'
  | 'r' => return '\r'
  | 't' => return '\t'
  | 'u' => unicodeEscape
  | _ => fail

def quoted : Reader String := do
  char '"'
  let cs ← many (satisfy (fun c => c != '"' && c != '\\' && '\x20' ≤ c) <|> escape)
  char '"'
  return String.ofList cs

def numeral : Reader Json := do
  match (← Numeral.scan).value with
  | .ok n => return .number n
  | .error _ => fail

def scalar : Reader Json :=
  (do return .string (← quoted)) <|> numeral <|>
  (do word "null"; return .null) <|>
  (do word "true"; return .boolean true) <|>
  (do word "false"; return .boolean false)

/-- The elements between two marks, separated by commas. -/
def listed {α : Type} (opening closing : Char) (element : Reader α) : Reader (List α) := do
  char opening
  let first ← optional element
  match first with
  | none => mark closing; return []
  | some a =>
    let rest ← many (do mark ','; element)
    mark closing
    return a :: rest

/-- A value that may nest `depth` times, with the blanks before it. -/
def value : Nat → Reader Json
  | 0 => do blanks; scalar
  | depth + 1 => do
    blanks
    scalar <|>
      (do return .array (← listed '[' ']' (value depth))) <|>
      (do return .object (Entries.ofPairs (← listed '\x7b' '\x7d' do
        blanks
        let name ← quoted
        mark ':'
        return (name, ← value depth))))

/-- Reads a JSON text that nests at most `depth` deep. -/
def parse? (text : String) (depth : Nat) : Option Json :=
  (run (do let v ← value depth; blanks; return v) text).map Prod.fst

end QueryCost.Json
