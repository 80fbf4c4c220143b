/-
  QueryCost.Language.Basic — what queries and schemas have in common.

  Types as they are written, directives as they are applied, and the three kinds of
  operation.
-/

import QueryCost.Table
import QueryCost.Value

namespace QueryCost

inductive TypeRef where
  | named (name : String) (nullable : Bool)
  | list (inner : TypeRef) (nullable : Bool)
  deriving DecidableEq, Repr, Inhabited

namespace TypeRef

def nullable : TypeRef → Bool
  | .named _ n => n
  | .list _ n => n

/-- The innermost name. -/
def name : TypeRef → String
  | .named n _ => n
  | .list inner _ => inner.name

def text : TypeRef → String
  | .named n nullable => if nullable then n else n ++ "!"
  | .list inner nullable => if nullable then "[" ++ inner.text ++ "]" else "[" ++ inner.text ++ "]!"

end TypeRef

/-- A directive where it is applied; its arguments in the order written, repeated ones
    included. -/
structure Directive (ν : Type) where
  name : String
  arguments : List (String × Value ν)
  deriving DecidableEq, Repr

/-- The argument of this name; of a repeated one the first. -/
def Directive.argument? {ν : Type} (d : Directive ν) (name : String) : Option (Value ν) :=
  Entries.get? name d.arguments

inductive OperationKind where
  | query
  | mutation
  | subscription
  deriving DecidableEq, Repr, Inhabited

def OperationKind.text : OperationKind → String
  | .query => "query"
  | .mutation => "mutation"
  | .subscription => "subscription"

end QueryCost
