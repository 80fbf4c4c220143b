/-
  QueryCost.Cost.Declared — costs as a schema declares them.

  A field or a type declares a flat cost or the cost of a list. Every number may be left
  open: an open complexity is filled in when costs are added up, an open assumed size
  counts as zero.

  Where several declarations apply, one is chosen by rank (`mostExpensive`): a flat cost
  by its complexity, a list by its assumed size, and anything declared before nothing.
  Ranks are signed 64-bit numbers, so from 2^63 - 1 on all are the same. Of equal ranks
  the first counts.
-/

import QueryCost.NameSet
import QueryCost.Size

namespace QueryCost

inductive DeclaredCost where
  | flat (complexity : Option Size)
  | list (complexity assumedSize : Option Size) (sizeArguments : NameSet)
  deriving DecidableEq, Repr

namespace DeclaredCost

def complexity? : DeclaredCost → Option Size
  | .flat c => c
  | .list c _ _ => c

def isList : DeclaredCost → Bool
  | .flat _ => false
  | .list _ _ _ => true

/-- The arguments whose values are list sizes, where there is at least one. -/
def sizeArguments? : DeclaredCost → Option NameSet
  | .flat _ => none
  | .list _ _ names => if names.isEmpty then none else some names

/-- The largest rank. -/
def rankLimit : Nat := 9223372036854775807

def rank : Option DeclaredCost → Int
  | none => -1
  | some (.list _ assumed _) => (min (assumed.getD 0).toNat rankLimit : Nat)
  | some (.flat complexity) => (min (complexity.getD 0).toNat rankLimit : Nat)

/-- The better of the best so far and the next candidate. -/
def better (best candidate : Option DeclaredCost) : Option DeclaredCost :=
  if rank best < rank candidate then candidate else best

/-- The first candidate of the highest rank. -/
def mostExpensive (candidates : List (Option DeclaredCost)) : Option DeclaredCost :=
  candidates.foldl better none

end DeclaredCost

end QueryCost
