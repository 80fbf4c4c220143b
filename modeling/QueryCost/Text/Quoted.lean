/-
  QueryCost.Text.Quoted — strings between quotes, as messages show them.

  A value in a message escapes control characters by their code point in decimal, four
  digits at least: U+001F is written as a backslash, `u` and `0031`.
-/

import QueryCost.Text.Visible

namespace QueryCost

/-- The control characters: the two blocks of 32 and the one before the second. -/
def isControl (c : Char) : Bool := c.toNat < 0x20 || (0x7F ≤ c.toNat && c.toNat < 0xA0)

/-- A natural in decimal, with zeros before it up to this width. -/
def paddedDecimal (width n : Nat) : List Char :=
  let ds := Nat.toDigits 10 n
  List.replicate (width - ds.length) '0' ++ ds

namespace Quoted

def valueChar (c : Char) : List Char :=
  if c = '\r' then ['\\', 'r']
  else if c = '\n' then ['\\', 'n']
  else if c = '\t' then ['\\', 't']
  else if c = '"' then ['\\', '"']
  else if c = '\\' then ['\\', '\\']
  else if isControl c then '\\' :: 'u' :: paddedDecimal 4 c.toNat
  else [c]

/-- A string as a value shows it. -/
def value (s : String) : String := "\"" ++ String.ofList (s.toList.flatMap valueChar) ++ "\""

/-- A character of a string literal: what has no visible form of its own is written as
    its code point in hexadecimal. -/
def literalChar (c : Char) : List Char :=
  if c = '\x00' then ['\\', '0']
  else if c = '\t' then ['\\', 't']
  else if c = '\n' then ['\\', 'n']
  else if c = '\r' then ['\\', 'r']
  else if c = '"' then ['\\', '"']
  else if c = '\\' then ['\\', '\\']
  else if !Visible.isVisible c then '\\' :: 'u' :: '\x7b' :: Nat.toDigits 16 c.toNat ++ ['\x7d']
  else [c]

/-- A string as a literal shows it. -/
def literal (s : String) : String := "\"" ++ String.ofList (s.toList.flatMap literalChar) ++ "\""

end Quoted

end QueryCost
