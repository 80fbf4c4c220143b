/-
  QueryCost.Report — complexities, the limit, and the errors of a request.

  A complexity passes when it is at most the limit (`evaluate`). Everything that can be
  wrong with a request is a `Cause`; an error is a cause and the places it concerns.
  Its message, its JSON form and the extensions a client sees follow from these.
-/

import QueryCost.Document.Basic
import QueryCost.Size

namespace QueryCost

/-- A complexity and the limit it is held to. -/
structure Complexity where
  current : Size
  max : Size
  deriving DecidableEq, Repr

def Complexity.isExceeded (c : Complexity) : Bool := c.max < c.current

/-! ## Errors -/

/-- Why a supplied value is no `Int`. -/
inductive IntProblem where
  | notInt32
  | notInteger
  deriving DecidableEq, Repr

def IntProblem.message (value : Constant) : IntProblem → String
  | .notInt32 => "Int cannot represent non 32-bit signed integer value: " ++ value.text
  | .notInteger => "Int cannot represent non-integer value: " ++ value.text

inductive Cause where
  | nullVariable (name : String) (type : TypeRef)
  | invalidVariable (name : String) (value : Constant) (problem : IntProblem)
  | missingVariable (name : String) (type : TypeRef)
  /-- The complexity is over the limit. -/
  | limit (complexity : Complexity)
  /-- A fragment spreads itself by way of these, itself first and last. -/
  | cycle (fragments : List String)
  | document (error : DocumentError)
  | missingAnalyzer
  deriving DecidableEq, Repr

def Cause.message : Cause → String
  | .nullVariable name type =>
    "Variable \"$" ++ name ++ "\" of non-null type \"" ++ type.text ++ "\" must not be null."
  | .invalidVariable name value problem =>
    "Variable \"$" ++ name ++ "\" got invalid value " ++ value.text ++ "; " ++ problem.message value
  | .missingVariable name type =>
    "Variable \"$" ++ name ++ "\" of required type \"" ++ type.text ++ "\" was not provided."
  | .limit c =>
    "Complexity of " ++ toString c.current ++ " is greater than max complexity of " ++ toString c.max
  | .cycle fragments =>
    "Cannot compute complexity, fragment \"" ++ fragments.headD "" ++ "\" spreads itself via " ++
      " -> ".intercalate fragments
  | .document e => e.message
  | .missingAnalyzer => "no query complexity analyzer is attached to the schema"

structure RuleError where
  cause : Cause
  locations : List Position
  deriving DecidableEq, Repr

namespace RuleError

def message (e : RuleError) : String := e.cause.message

/-- What a client is told beside the message: the numbers of an exceeded limit. -/
def extensions (e : RuleError) : Option Complexity :=
  match e.cause with
  | .limit c => some c
  | _ => none

/-- The places in brackets, where there are any, and the message. -/
def text (e : RuleError) : String :=
  let places := e.locations.map fun p => toString p.line ++ ":" ++ toString p.column
  (if places.isEmpty then "" else "[" ++ ", ".intercalate places ++ "] ") ++ e.message

def positionJson (p : Position) : Json :=
  .object [("line", .ofNat p.line), ("column", .ofNat p.column)]

/-- The error as a response carries it; what is empty is left out. -/
def toJson (e : RuleError) : Json :=
  .object (
    [("message", .string e.message)] ++
    (if e.locations.isEmpty then [] else [("locations", .array (e.locations.map positionJson))]) ++
    (match e.extensions with
      | some c =>
        [("extensions", .object
          [("complexity", .object [("current", .ofSize c.current), ("max", .ofSize c.max)])])]
      | none => []))

end RuleError

/-! ## The limit -/

inductive Verdict where
  | pass
  | violation (complexity : Complexity)
  deriving DecidableEq, Repr

/-- A total at the limit passes. -/
def evaluate (total max : Size) : Verdict :=
  if max < total then .violation ⟨total, max⟩ else .pass

namespace Verdict

def isPass : Verdict → Bool
  | .pass => true
  | .violation _ => false

def error? : Verdict → Option RuleError
  | .pass => none
  | .violation c => some ⟨.limit c, []⟩

end Verdict

end QueryCost
