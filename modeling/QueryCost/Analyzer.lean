/-
  QueryCost.Analyzer — the two numbers an analysis is set up with.
-/

import QueryCost.Size

namespace QueryCost

/-- The complexity of a field that declares none, where no other is set. -/
def defaultFieldComplexity : Size := 1

structure Analyzer where
  /-- The complexity of a field that declares none, or leaves it open. -/
  defaultComplexity : Size
  /-- The largest complexity an operation may have. -/
  maxComplexity : Size
  deriving DecidableEq, Repr

namespace Analyzer

def ofMax (maxComplexity : Size) : Analyzer := ⟨defaultFieldComplexity, maxComplexity⟩

def withDefault (a : Analyzer) (defaultComplexity : Size) : Analyzer := { a with defaultComplexity }

end Analyzer

end QueryCost
