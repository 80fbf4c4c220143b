/-
  QueryCost.Decode — self-describing data and why it is refused.

  Settings and variables come out of texts of several formats. A `Datum` is what such a
  text says, whichever format said it; a `DecodeError` is the first thing in it that
  the reader of settings or variables cannot use.
-/

import QueryCost.Json.Basic
import QueryCost.Text.Quoted

namespace QueryCost

/-- Data as a text describes it. A real number is kept as the text that shows it, since
    formats differ in how they write one. -/
inductive Datum where
  | null
  | boolean (value : Bool)
  | integer (value : Int)
  | real (shown : String)
  | string (value : String)
  | sequence (items : List Datum)
  | mapping (members : List (String × Datum))
  deriving Repr, Inhabited

/-- What was found where something else was expected. -/
inductive Found where
  | null
  | boolean (value : Bool)
  | integer (value : Int)
  | real (shown : String)
  | string (value : String)
  | sequence
  | mapping
  deriving DecidableEq, Repr

def Found.text : Found → String
  | .null => "null"
  | .boolean b => "boolean `" ++ (if b then "true" else "false") ++ "`"
  | .integer n => "integer `" ++ toString n ++ "`"
  | .real shown => "floating point `" ++ shown ++ "`"
  | .string s => "string " ++ Quoted.literal s
  | .sequence => "sequence"
  | .mapping => "map"

def Datum.found : Datum → Found
  | .null => .null
  | .boolean b => .boolean b
  | .integer n => .integer n
  | .real shown => .real shown
  | .string s => .string s
  | .sequence _ => .sequence
  | .mapping _ => .mapping

inductive DecodeError where
  | invalidType (found : Found) (expected : String)
  | invalidValue (found : Found) (expected : String)
  | unknownField (name : String) (known : List String)
  /-- A sequence with more elements than are read. -/
  | tooLong (length : Nat)
  deriving DecidableEq, Repr

def DecodeError.message : DecodeError → String
  | .invalidType found expected => "invalid type: " ++ found.text ++ ", expected " ++ expected
  | .invalidValue found expected => "invalid value: " ++ found.text ++ ", expected " ++ expected
  | .unknownField name known =>
    "unknown field `" ++ name ++ "`, expected " ++ " or ".intercalate (known.map fun k => "`" ++ k ++ "`")
  | .tooLong n => "invalid length " ++ toString n ++ ", expected fewer elements in array"

namespace Json

mutual

/-- What a JSON value says. -/
def toDatum : Json → Datum
  | .null => .null
  | .boolean b => .boolean b
  | .number (.integer n _) => .integer n
  | .number (.real x) => .real (x.text .data)
  | .string s => .string s
  | .array items => .sequence (toDatums items)
  | .object members => .mapping (toMapping members)

def toDatums : List Json → List Datum
  | [] => []
  | v :: rest => toDatum v :: toDatums rest

def toMapping : List (String × Json) → List (String × Datum)
  | [] => []
  | (name, v) :: rest => (name, toDatum v) :: toMapping rest

end

end Json

end QueryCost
