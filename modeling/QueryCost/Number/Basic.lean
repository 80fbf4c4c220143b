/-
  QueryCost.Number.Basic — the numbers of values.

  A number is an integer of at most 64 bits, signed or unsigned, or a finite binary64.
  The two are kept apart: `1.0` is not an integer, and `-0`, which no integer can
  express, is the binary64 `-0.0`.
-/

import QueryCost.Number.Binary64
import QueryCost.Size

namespace QueryCost

inductive Number where
  | integer (value : Int) (inRange : -9223372036854775808 ≤ value ∧ value ≤ 18446744073709551615)
  | real (value : Binary64)
  deriving DecidableEq, Repr

namespace Number

/-- The integer as a number, where 64 bits hold it. -/
def ofInt? (n : Int) : Option Number :=
  if h : -9223372036854775808 ≤ n ∧ n ≤ 18446744073709551615 then some (.integer n h) else none

def ofSize (a : Size) : Number :=
  .integer a.toNat (by
    have h : a.toNat ≤ 18446744073709551615 := a.le_limit
    omega)

/-- The number as a size: integers from zero on. -/
def size? : Number → Option Size
  | .integer n _ => if 0 ≤ n then Size.ofNat? n.toNat else none
  | .real _ => none

/-- Integers in full, binary64 numbers with a point or an exponent. -/
def text : Number → String
  | .integer n _ => toString n
  | .real x => x.text .data

end Number

end QueryCost
