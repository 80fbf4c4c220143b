/-
  QueryCost.Text.Scan — reading a text from left to right.

  A scan takes what it accepts from the front of a text or fails without a trace, so a
  choice tries its second branch where the first began. Choices are ordered, and a
  repetition takes all it can and is never shortened afterwards.

  What breaks no rule of the grammar but still makes the text unusable is a fault. The
  first fault is kept beside the position and reading goes on, since a break of the
  grammar further on weighs more; a branch that is given up takes its fault with it.
-/

import QueryCost.Text.Position

namespace QueryCost

/-- What is left of a text, where that is, and the first fault met so far. -/
structure Cursor (φ : Type) where
  rest : List Char
  position : Position
  fault : Option φ

abbrev Scan (φ α : Type) := StateT (Cursor φ) Option α

namespace Scan

variable {φ α : Type}

/-- Reads a whole text: the scan has to reach its end. -/
def run (p : Scan φ α) (text : String) : Option (α × Option φ) :=
  match p ⟨text.toList, .start, none⟩ with
  | some (a, ⟨[], _, fault⟩) => some (a, fault)
  | _ => none

def fail : Scan φ α := fun _ => none

/-- The next character, where it is of this class. -/
def satisfy (p : Char → Bool) : Scan φ Char := fun c =>
  match c.rest with
  | [] => none
  | a :: rest => if p a then some (a, { c with rest := rest, position := c.position.after a }) else none

def any : Scan φ Char := satisfy fun _ => true

/-- This character. -/
def char (a : Char) : Scan φ Unit := do let _ ← satisfy (· == a)

/-- These characters, one after the other. -/
def chars : List Char → Scan φ Unit
  | [] => pure ()
  | a :: rest => do char a; chars rest

def word (s : String) : Scan φ Unit := chars s.toList

/-- The longest run of characters of this class, what follows it, and where that is. -/
def span (p : Char → Bool) : List Char → Position → List Char × List Char × Position
  | [], pos => ([], [], pos)
  | a :: rest, pos =>
    if p a then
      let (taken, left, pos) := span p rest (pos.after a)
      (a :: taken, left, pos)
    else ([], a :: rest, pos)

def takeWhile (p : Char → Bool) : Scan φ (List Char) := fun c =>
  let (taken, left, pos) := span p c.rest c.position
  some (taken, { c with rest := left, position := pos })

/-- As `takeWhile`, at least one character. -/
def takeWhile₁ (p : Char → Bool) : Scan φ (List Char) := do
  let a ← satisfy p
  return a :: (← takeWhile p)

/-- Whether the scan succeeds here; what it read is taken. -/
def taken (p : Scan φ α) : Scan φ Bool := do return (← optional p).isSome

/-- Succeeds, taking nothing, where the scan fails. -/
def notAhead (p : Scan φ α) : Scan φ Unit := fun c =>
  match p c with
  | some _ => none
  | none => some ((), c)

/-- Takes nothing where the scan succeeds. -/
def ahead (p : Scan φ α) : Scan φ Unit := fun c =>
  match p c with
  | some _ => some ((), c)
  | none => none

/-- At most `n` more times, as often as the scan succeeds; `got` is what it took so
    far, the last first. -/
def upTo (p : Scan φ α) : Nat → List α → Cursor φ → List α × Cursor φ
  | 0, got, c => (got.reverse, c)
  | n + 1, got, c =>
    match p c with
    | none => (got.reverse, c)
    | some (a, c) => upTo p n (a :: got) c

/-- As often as the scan succeeds. A scan that takes at least one character succeeds no
    more often than there are characters left. -/
def many (p : Scan φ α) : Scan φ (List α) := fun c => some (upTo p c.rest.length [] c)

/-- As `many`, at least once. -/
def many₁ (p : Scan φ α) : Scan φ (List α) := do
  let a ← p
  return a :: (← many p)

/-- A scan that nests: `p n` may nest itself up to `n` times. Every nesting takes at
    least one character, so those left are as many as can be needed. -/
def nested (p : Nat → Scan φ α) : Scan φ α := fun c => p (c.rest.length + 1) c

/-- The place the scan has come to. -/
def here : Scan φ Position := fun c => some (c.position, c)

/-- Keeps a fault, where it is the first. -/
def report (f : φ) : Scan φ Unit := fun c => some ((), { c with fault := c.fault.or (some f) })

/-- One decimal digit. -/
def isDigit (c : Char) : Bool := '0' ≤ c && c ≤ '9'

def isHexDigit (c : Char) : Bool := isDigit c || ('a' ≤ c && c ≤ 'f') || ('A' ≤ c && c ≤ 'F')

/-- The value of a hexadecimal digit. -/
def hexValue (c : Char) : Nat :=
  if isDigit c then c.toNat - '0'.toNat
  else if 'a' ≤ c && c ≤ 'f' then c.toNat - 'a'.toNat + 10
  else c.toNat - 'A'.toNat + 10

/-- The value of a number written in digits of this base. -/
def valueInBase (base : Nat) (ds : List Char) : Nat := ds.foldl (fun n c => base * n + hexValue c) 0

/-- `n` hexadecimal digits, as the number they write. -/
def hexDigits (n : Nat) : Scan φ Nat := do
  let ds ← (List.replicate n ()).mapM fun _ => satisfy isHexDigit
  return valueInBase 16 ds

end Scan

end QueryCost
