/-
  QueryCost.Event — what an analysis logs.
-/

import QueryCost.Size

namespace QueryCost

inductive Level where
  | debug
  | info
  | warn
  | error
  deriving DecidableEq, Repr

def Level.text : Level → String
  | .debug => "DEBUG"
  | .info => "INFO"
  | .warn => "WARN"
  | .error => "ERROR"

inductive Event where
  /-- A field whose enclosing type is not known. -/
  | untypedField (field : String)
  | unknownField (type field : String)
  /-- A field whose list sizes need variables that could not be coerced. -/
  | prunedField (field : String)
  | uncoercedVariables (count : Nat)
  | unknownSpread (fragment : String)
  /-- A spread met while adding up, of a fragment the tree does not hold. -/
  | undefinedFragment (fragment : String)
  | rejected (current max : Size)
  | computed (current max : Size)
  | missingAnalyzer
  | unlimited
  deriving DecidableEq, Repr

namespace Event

def level : Event → Level
  | .untypedField _ | .unknownField _ _ | .prunedField _ | .uncoercedVariables _ | .unknownSpread _
  | .undefinedFragment _ => .debug
  | .computed _ _ => .info
  | .rejected _ _ | .unlimited => .warn
  | .missingAnalyzer => .error

def message : Event → String
  | .untypedField f => "Skipping field " ++ f ++ " without a parent type"
  | .unknownField t f => "Skipping unknown field " ++ t ++ "." ++ f
  | .prunedField f => "Pruning field " ++ f ++ ", its list size variables could not be resolved"
  | .uncoercedVariables n => "Failed to resolve " ++ toString n ++ " variable(s) for list sizes"
  | .unknownSpread f => "Ignoring spread of unknown fragment " ++ f
  | .undefinedFragment f => "No definition for spread fragment " ++ f ++ ", it contributes nothing"
  | .rejected current max =>
    "Operation rejected, complexity " ++ toString current ++ " exceeds the limit of " ++ toString max
  | .computed current max =>
    "Computed operation complexity complexity=" ++ toString current ++ " max_complexity=" ++ toString max
  | .missingAnalyzer => "Complexity validation requested on a schema without an analyzer"
  | .unlimited => "Query complexity analysis enabled without a max_complexity, no operation will be rejected"

def text (e : Event) : String := e.level.text ++ " " ++ e.message

end Event

end QueryCost
