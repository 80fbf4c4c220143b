/-
  QueryCost.Number.Numeral — numbers as they are written.

  A numeral is a sign, whole digits, and optionally a fraction and an exponent. Without
  these two it is an integer where 64 bits hold it; every other numeral is the nearest
  binary64. Past the largest binary64 it has no value, and the column up to which it
  was read is part of the report.
-/

import QueryCost.Number.Basic

namespace QueryCost

/-- A written number. `whole`, `fraction` and the exponent's digits hold `0` to `9`
    only; `fraction` is empty when there is none. -/
structure Numeral where
  negative : Bool
  whole : List Char
  fraction : List Char
  /-- The exponent part: its mark and sign as written, whether it is negative, and its
      digits. -/
  exponent : Option (List Char × Bool × List Char)
  deriving DecidableEq, Repr

/-- Why a numeral has no value. -/
inductive NumeralFault where
  /-- It lies past the largest binary64; found at this column. -/
  | outOfRange (column : Nat)
  /-- Its exponent passed 31 bits before its last digit; the next digit is at this
      column. -/
  | unfinished (column : Nat)
  deriving DecidableEq, Repr

def NumeralFault.message : NumeralFault → String
  | .outOfRange c => "number out of range at line 1 column " ++ toString c
  | .unfinished c => "invalid number at line 1 column " ++ toString c

/-- The natural a list of decimal digits stands for. -/
def digitsValue (ds : List Char) : Nat := ds.foldl (fun n c => 10 * n + (c.toNat - '0'.toNat)) 0

namespace Numeral

/-- The written form. -/
def chars (n : Numeral) : List Char :=
  (if n.negative then ['-'] else []) ++ n.whole ++
    (if n.fraction.isEmpty then [] else '.' :: n.fraction) ++
    (n.exponent.map fun (mark, _, ds) => mark ++ ds).getD []

/-- All digits before the exponent part, as one natural. -/
def significand (n : Numeral) : Nat := digitsValue (n.whole ++ n.fraction)

/-- The power of ten the last of those digits stands for. -/
def power (n : Numeral) : Int :=
  let e : Int := match n.exponent with
    | some (_, negative, ds) => if negative then -digitsValue ds else digitsValue ds
    | none => 0
  e - n.fraction.length

/-- How many digits are read until their value passes 31 bits; all of them when it
    does not. -/
def digitsRead (acc : Nat) : List Char → Nat
  | [] => 0
  | c :: rest =>
    let acc := 10 * acc + (c.toNat - '0'.toNat)
    if 2147483647 < acc then 1 else 1 + digitsRead acc rest

def fault (n : Numeral) : NumeralFault :=
  let length := n.chars.length
  match n.exponent with
  | some (_, _, ds) =>
    let unread := ds.length - digitsRead 0 ds
    if unread = 0 then .outOfRange length else .unfinished (length - unread + 1)
  | none => .outOfRange length

/-- The number written, or why there is none. -/
def value (n : Numeral) : Except NumeralFault Number :=
  let real :=
    match Binary64.ofDecimal? n.negative n.significand n.power with
    | some x => .ok (.real x)
    | none => .error n.fault
  if n.fraction.isEmpty && n.exponent.isNone then
    if n.negative && n.significand = 0 then .ok (.real (.zero true))
    else
      match Number.ofInt? (if n.negative then -n.significand else n.significand) with
      | some v => .ok v
      | none => real
  else real

end Numeral

end QueryCost
