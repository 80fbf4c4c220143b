/-
  QueryCost.Settings — the settings of an analysis.

  Settings are two numbers, given by name or as a sequence in order, and each may be
  left out. They come from the `complexity` table of a TOML document, of which all else
  is ignored, or from JSON. A sequence with more than the two is refused in JSON and
  cut off in TOML.

  Without a limit the analyzer has the largest one there is, which no complexity
  exceeds, and says so in the log.
-/

import QueryCost.Analyzer
import QueryCost.Event
import QueryCost.Json.Basic
import QueryCost.Toml.Reader

namespace QueryCost

structure Settings where
  defaultComplexity : Size
  maxComplexity : Option Size
  deriving DecidableEq, Repr

/-- Why settings cannot be read. -/
inductive SettingsError where
  | grammar
  | decode (error : DecodeError)
  deriving DecidableEq, Repr

namespace Settings

def initial : Settings := ⟨defaultFieldComplexity, none⟩

/-! ## Decoding -/

/-- What an error calls a number. -/
def sizeName : String := "usize"

/-- What an error calls the settings. -/
def settingsName : String := "struct QueryComplexityConfig"

def fieldNames : List String := ["default_complexity", "max_complexity"]

def decodeSize : Datum → Except DecodeError Size
  | .integer n =>
    match if 0 ≤ n then Size.ofNat? n.toNat else none with
    | some a => .ok a
    | none => .error (.invalidValue (.integer n) sizeName)
  | d => .error (.invalidType d.found sizeName)

/-- `null` is no limit. -/
def decodeLimit : Datum → Except DecodeError (Option Size)
  | .null => .ok none
  | d => do return some (← decodeSize d)

def setField (s : Settings) : String × Datum → Except DecodeError Settings
  | (name, d) =>
    if name = "default_complexity" then do return { s with defaultComplexity := ← decodeSize d }
    else if name = "max_complexity" then do return { s with maxComplexity := ← decodeLimit d }
    else .error (.unknownField name fieldNames)

def ofSequence : List Datum → Except DecodeError Settings
  | [] => .ok initial
  | [d] => do return { initial with defaultComplexity := ← decodeSize d }
  | d :: m :: _ => do
    let defaultComplexity ← decodeSize d
    let maxComplexity ← decodeLimit m
    return { defaultComplexity, maxComplexity }

/-- The settings data describes; `wholeSequence` refuses sequences with more than the
    two numbers. -/
def decode (wholeSequence : Bool) : Datum → Except DecodeError Settings
  | .mapping members => members.foldlM setField initial
  | .sequence items => do
    let s ← ofSequence items
    if wholeSequence && fieldNames.length < items.length then .error (.tooLong items.length) else return s
  | d => .error (.invalidType d.found settingsName)

/-! ## Texts -/

/-- The `complexity` table of a TOML document. -/
def ofToml (text : String) : Except SettingsError Settings :=
  match Toml.parse? text with
  | none => .error .grammar
  | some root =>
    match Entries.get? "complexity" root with
    | none => .ok initial
    | some v => (decode false v.toDatum).mapError .decode

def ofJson (v : Json) : Except DecodeError Settings := decode true v.toDatum

/-! ## The analyzer -/

def analyzer (s : Settings) : Analyzer × List Event :=
  match s.maxComplexity with
  | some max => (⟨s.defaultComplexity, max⟩, [])
  | none => (⟨s.defaultComplexity, .largest⟩, [.unlimited])

end Settings

end QueryCost
