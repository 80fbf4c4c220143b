/-
  QueryCost.Json.Basic — JSON values.

  The members of an object keep their order, and numbers keep the difference between
  an integer and a binary64.
-/

import QueryCost.Number.Basic

namespace QueryCost

inductive Json where
  | null
  | boolean (value : Bool)
  | number (value : Number)
  | string (value : String)
  | array (items : List Json)
  | object (members : List (String × Json))
  deriving Repr, Inhabited

namespace Json

def ofSize (a : Size) : Json := .number (.ofSize a)

def ofNat (n : Nat) : Json := ofSize (.ofNat n)

def ofStrings (ss : List String) : Json := .array (ss.map .string)

/-- The value, or `null` for none. -/
def ofOption {α : Type} (f : α → Json) : Option α → Json
  | some a => f a
  | none => .null

/-- The member of this name; values other than objects have none. -/
def member? (name : String) : Json → Option Json
  | .object members => members.lookup name
  | _ => none

end Json

end QueryCost
