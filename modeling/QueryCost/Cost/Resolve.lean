/-
  QueryCost.Cost.Resolve — the declared cost that applies to a selection.

  On an interface neither its own declarations nor those of its fields count, but the
  most expensive one among the objects that implement it.
-/

import QueryCost.Schema.Basic

namespace QueryCost.Schema

/-- The cost of a field selected on a type. -/
def fieldCost (s : Schema) (parent : TypeEntry) (field : String) : Option DeclaredCost :=
  if parent.isInterface then
    DeclaredCost.mostExpensive
      (((s.implementations parent).filterMap (·.field? field)).map (·.cost))
  else (parent.field? field).bind (·.cost)

/-- The cost of the type a field leads to. -/
def typeCost (s : Schema) (t : TypeEntry) : Option DeclaredCost :=
  if t.isInterface then DeclaredCost.mostExpensive ((s.implementations t).map (·.cost)) else t.cost

end QueryCost.Schema
