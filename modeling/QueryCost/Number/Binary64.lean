/-
  QueryCost.Number.Binary64 — finite 64-bit binary floating point numbers, exactly.

  A number is a sign, a mantissa below 2^53 and an exponent, all integers, so reading
  a decimal and choosing the digits to write are exact arithmetic on naturals.

  (1) Reading rounds a decimal to the nearest such number, a tie to the even mantissa;
  a decimal that would round past the largest one has no reading.
  (2) Writing takes the fewest digits that read back, the nearest of those. A layout
  says which of two equally near ones and where an exponent part is written.
-/

namespace QueryCost

/-- The number `mantissa · 2 ^ exponent`, negated when `negative`. -/
structure Binary64 where
  negative : Bool
  mantissa : Nat
  exponent : Int
  deriving DecidableEq, Repr

namespace Binary64

/-- Mantissas stay below this: 2^53. -/
def mantissaLimit : Nat := 9007199254740992

/-- The least mantissa of full precision: 2^52. -/
def fullMantissa : Nat := 4503599627370496

/-- The least exponent; mantissas without full precision occur only here. -/
def minExponent : Int := -1074

def maxExponent : Int := 971

def zero (negative : Bool) : Binary64 := ⟨negative, 0, minExponent⟩

/-! ## (1) Reading a decimal -/

/-- The nearest natural to `num / den`, a half to the even neighbour. -/
def roundHalfEven (num den : Nat) : Nat :=
  let q := num / den
  let r := num % den
  if 2 * r < den then q else if den < 2 * r then q + 1 else q + q % 2

/-- `num / den / 2 ^ e` as a fraction. -/
def scaleDown (num den : Nat) (e : Int) : Nat × Nat :=
  if 0 ≤ e then (num, den * Nat.pow 2 e.toNat) else (num * Nat.pow 2 (-e).toNat, den)

/-- The nearest number to a fraction, none past the largest one. -/
def ofRatio? (negative : Bool) (num den : Nat) : Option Binary64 :=
  if num = 0 then some (zero negative) else
    let low : Int := num.log2 - den.log2 - 53
    let (n, d) := scaleDown num den low
    let e := max minExponent (if mantissaLimit ≤ n / d then low + 1 else low)
    let (n, d) := scaleDown num den e
    let m := roundHalfEven n d
    let (m, e) := if m = mantissaLimit then (fullMantissa, e + 1) else (m, e)
    if e ≤ maxExponent then some ⟨negative, m, e⟩ else none

/-- The nearest number to `digits · 10 ^ exponent`. The two bounds on the size of the
    decimal only spare the computation of huge powers. -/
def ofDecimal? (negative : Bool) (digits : Nat) (exponent : Int) : Option Binary64 :=
  if digits = 0 ∨ exponent + digits.log2 / 3 + 1 < -400 then some (zero negative)
  else if 400 < exponent then none
  else if 0 ≤ exponent then ofRatio? negative (digits * Nat.pow 10 exponent.toNat) 1
  else ofRatio? negative digits (Nat.pow 10 (-exponent).toNat)

/-! ## (2) Choosing the digits -/

/-- Whether `10 ^ k ≤ num / den`. -/
def powerAtMost (num den : Nat) (k : Int) : Bool :=
  if 0 ≤ k then Nat.pow 10 k.toNat * den ≤ num else den ≤ num * Nat.pow 10 (-k).toNat

/-- The decimal exponent of a positive fraction: the `k` with
    `10 ^ k ≤ num / den < 10 ^ (k + 1)`. -/
def decimalExponent (num den : Nat) : Int :=
  let guess : Int := ((num.log2 : Int) - den.log2) * 30103 / 100000
  if powerAtMost num den (guess + 1) then guess + 1
  else if powerAtMost num den guess then guess
  else guess - 1

/-- The decimals that read back as one number: those between `low / den` and
    `high / den`, the ends included where `closed`; the number itself is `value / den`. -/
structure Interval where
  low : Nat
  value : Nat
  high : Nat
  den : Nat
  closed : Bool

/-- Half a unit to either side, a quarter below a power of two. -/
def interval (x : Binary64) : Interval :=
  let below := if x.mantissa = fullMantissa ∧ minExponent < x.exponent then 1 else 2
  let e := x.exponent - 2
  let scale := if 0 ≤ e then Nat.pow 2 e.toNat else 1
  { low := (4 * x.mantissa - below) * scale
    value := 4 * x.mantissa * scale
    high := (4 * x.mantissa + 2) * scale
    den := if 0 ≤ e then 1 else Nat.pow 2 (-e).toNat
    closed := x.mantissa % 2 = 0 }

/-- Which of two equally near decimals is written. -/
inductive Tie where
  /-- The one with the even last digit. -/
  | even
  /-- The one further from zero. -/
  | away
  deriving DecidableEq, Repr

/-- One of the neighbours `down` and `down + 1`. -/
def Tie.choose (t : Tie) (down : Nat) : Nat :=
  match t with
  | .even => down + down % 2
  | .away => down + 1

/-- The multiple of `10 ^ k` in the interval that is nearest to its value, as a
    multiple. Only the two neighbours of the value can be nearest. -/
def Interval.multiple? (i : Interval) (tie : Tie) (k : Int) : Option Nat :=
  let unit := if 0 ≤ k then Nat.pow 10 k.toNat * i.den else i.den
  let scale := if 0 ≤ k then 1 else Nat.pow 10 (-k).toNat
  let holds (c : Nat) : Bool :=
    if i.closed then i.low * scale ≤ c * unit && c * unit ≤ i.high * scale
    else i.low * scale < c * unit && c * unit < i.high * scale
  let down := i.value * scale / unit
  let up := down + 1
  let toDown := i.value * scale - down * unit
  let toUp := up * unit - i.value * scale
  match holds down, holds up with
  | true, true =>
    if toDown < toUp then some down else if toUp < toDown then some up
    else some (tie.choose down)
  | true, false => some down
  | false, true => some up
  | false, false => none

/-- The digits to write for a number other than zero, without trailing zeros, and the
    power of ten the first of them stands for. Seventeen digits always read back. -/
def shortest (tie : Tie) (x : Binary64) : List Char × Int :=
  let i := x.interval
  let p := decimalExponent i.value i.den
  let found := (List.range 17).findSome? fun (n : Nat) =>
    (i.multiple? tie (p - n)).map fun c => (c, p - (n : Int))
  let (c, k) := found.getD (i.value / i.den, 0)
  let digits := Nat.toDigits 10 c
  ((digits.reverse.dropWhile (· == '0')).reverse, k + digits.length - 1)

/-- How a number is laid out. -/
structure Layout where
  tie : Tie
  /-- The decimal exponents that are written out without an exponent part. -/
  plain : Int → Bool

/-- Data texts write exponents from -5 to 15 out and prefer an even last digit. -/
def Layout.data : Layout := ⟨.even, fun p => -5 ≤ p && p ≤ 15⟩

/-- Every exponent is written out, and a tie goes away from zero. -/
def Layout.plainOnly : Layout := ⟨.away, fun _ => true⟩

/-- The digits with their point: a written-out number has a digit on either side of
    the point, an exponent part carries its sign. -/
def Layout.place (l : Layout) (digits : List Char) (p : Int) : List Char :=
  if l.plain p then
    if 0 ≤ p then
      let n := p.toNat + 1
      let whole := digits.take n
      let fraction := digits.drop n
      whole ++ List.replicate (n - whole.length) '0' ++ '.' :: (if fraction.isEmpty then ['0'] else fraction)
    else '0' :: '.' :: List.replicate ((-p).toNat - 1) '0' ++ digits
  else
    let tail := digits.drop 1
    digits.take 1 ++ (if tail.isEmpty then [] else '.' :: tail) ++
      'e' :: (if 0 ≤ p then '+' else '-') :: Nat.toDigits 10 p.natAbs

def text (l : Layout) (x : Binary64) : String :=
  let body := if x.mantissa = 0 then ['0', '.', '0'] else
    let (digits, p) := x.shortest l.tie
    l.place digits p
  String.ofList (if x.negative then '-' :: body else body)

end Binary64

end QueryCost
