/-
  QueryCost.Number.Scan — reading numerals.

  A numeral has no leading zeros, digits on both sides of its point and at least one
  digit in its exponent. What cannot be part of it is left: `01` is the numeral `0`
  with a `1` after it, and `1.` the numeral `1` with a point after it.
-/

import QueryCost.Number.Numeral
import QueryCost.Text.Scan

namespace QueryCost.Numeral

open Scan

variable {φ : Type}

def scanWhole : Scan φ (List Char) :=
  (do char '0'; return ['0']) <|>
  (do
    let d ← satisfy fun c => '1' ≤ c && c ≤ '9'
    return d :: (← takeWhile isDigit))

def scanFraction : Scan φ (List Char) := do
  char '.'
  takeWhile₁ isDigit

def scanExponent : Scan φ (List Char × Bool × List Char) := do
  let mark ← satisfy fun c => c == 'e' || c == 'E'
  let sign ← optional (satisfy fun c => c == '+' || c == '-')
  let ds ← takeWhile₁ isDigit
  return (mark :: sign.toList, sign = some '-', ds)

def scan : Scan φ Numeral := do
  let negative ← taken (char '-')
  let whole ← scanWhole
  let fraction ← optional scanFraction
  let exponent ← optional scanExponent
  return ⟨negative, whole, fraction.getD [], exponent⟩

end QueryCost.Numeral
