/-
  QueryCost.Toml.Basic — TOML documents.

  A document is read as a list of lines and put together from them, a section at a time.
  Each table knows what made it, since that decides what may still be added:

  - a table with a header of its own, or in braces, is closed to keys with dots and to
    headers;
  - one that is only on the way to another header (`onTheWay`) can still get its header;
  - one made by keys with dots (`dotted`) takes more such keys, and no header.

  A table that gets its header late moves behind the tables before it.
-/

import QueryCost.Decode
import QueryCost.Number.Basic
import QueryCost.Table

namespace QueryCost

namespace Toml

inductive Float where
  | finite (value : Binary64)
  | infinity (negative : Bool)
  | nan
  deriving DecidableEq, Repr

def Float.text : Float → String
  | .finite x => x.text .plainOnly
  | .infinity negative => if negative then "-inf" else "inf"
  | .nan => "NaN"

/-- What made a table. -/
inductive Origin where
  | braces
  | header
  | onTheWay
  | dotted
  deriving DecidableEq, Repr

inductive Value where
  | string (value : String)
  | integer (value : Int)
  | float (value : Float)
  | boolean (value : Bool)
  | date (written : String)
  | array (items : List Value)
  | table (origin : Origin) (entries : List (String × Value))
  /-- The tables of one repeated header. -/
  | tables (elements : List (List (String × Value)))
  deriving Repr, Inhabited

/-- A key with dots: the tables it goes through and its own name. -/
structure KeyPath where
  parents : List String
  last : String
  deriving DecidableEq, Repr

inductive Line where
  | header (path : KeyPath)
  | repeatedHeader (path : KeyPath)
  | pair (path : KeyPath) (value : Value)
  deriving Repr

abbrev Entries := List (String × Value)

/-! ## Adding a pair -/

/-- Adds a value below the tables `parents`, which only keys with dots may have made.
    `own` tells whether the table at hand may take the value itself. -/
def addBelow (own : Bool) : List String → String → Value → Entries → Option Entries
  | [], last, v, entries =>
    if own && (Entries.get? last entries).isNone then some (Entries.put last v entries) else none
  | k :: parents, last, v, entries =>
    match Entries.get? k entries with
    | none => do
      let below ← addBelow true parents last v []
      return Entries.put k (.table .dotted below) entries
    | some (.table .dotted below) => do
      let below ← addBelow true parents last v below
      return Entries.put k (.table .dotted below) entries
    | some (.table .onTheWay below) => do
      let below ← addBelow false parents last v below
      return Entries.put k (.table .onTheWay below) entries
    | some (.tables elements) => do
      let below ← addBelow false parents last v (← elements.getLast?)
      return Entries.put k (.tables (elements.dropLast ++ [below])) entries
    | some _ => none

def addPair (entries : Entries) (pair : KeyPath × Value) : Option Entries :=
  addBelow true pair.1.parents pair.1.last pair.2 entries

/-- The table of these pairs, on top of what it holds. -/
def addPairs (entries : Entries) (pairs : List (KeyPath × Value)) : Option Entries :=
  pairs.foldlM addPair entries

/-! ## Adding a section -/

/-- Changes the table a header leads to by `f`; tables missing on the way are made. -/
def atParent (f : Entries → Option Entries) : List String → Entries → Option Entries
  | [], entries => f entries
  | k :: parents, entries =>
    match Entries.get? k entries with
    | none => do
      return Entries.put k (.table .onTheWay (← atParent f parents [])) entries
    | some (.table .braces _) => none
    | some (.table origin below) => do
      return Entries.put k (.table origin (← atParent f parents below)) entries
    | some (.tables elements) => do
      let below ← atParent f parents (← elements.getLast?)
      return Entries.put k (.tables (elements.dropLast ++ [below])) entries
    | some _ => none

/-- A header, whether it is a repeated one, and the pairs under it. -/
structure Section where
  repeated : Bool
  path : KeyPath
  pairs : List (KeyPath × Value)
  deriving Repr

/-- The entry a header makes. -/
def Section.place (s : Section) (entries : Entries) : Option Entries :=
  let last := s.path.last
  if s.repeated then do
    let body ← addPairs [] s.pairs
    match Entries.get? last entries with
    | none => return entries ++ [(last, .tables [body])]
    | some (.tables elements) => return Entries.put last (.tables (elements ++ [body])) entries
    | some _ => none
  else
    match Entries.get? last entries with
    | none => do
      return entries ++ [(last, .table .header (← addPairs [] s.pairs))]
    | some (.table .onTheWay below) => do
      return entries.filter (·.1 ≠ last) ++ [(last, .table .header (← addPairs below s.pairs))]
    | some _ => none

def addSection (root : Entries) (s : Section) : Option Entries := atParent s.place s.path.parents root

/-- The pairs before the first header, and the sections. -/
def sections : List Line → List (KeyPath × Value) × List Section
  | [] => ([], [])
  | .pair path v :: rest =>
    let (pairs, more) := sections rest
    ((path, v) :: pairs, more)
  | .header path :: rest =>
    let (pairs, more) := sections rest
    ([], ⟨false, path, pairs⟩ :: more)
  | .repeatedHeader path :: rest =>
    let (pairs, more) := sections rest
    ([], ⟨true, path, pairs⟩ :: more)

/-- The document of these lines, unless one of them clashes with those before. -/
def ofLines (lines : List Line) : Option Entries := do
  let (pairs, more) := sections lines
  more.foldlM addSection (← addPairs [] pairs)

/-- The table in braces of these pairs. -/
def ofBraces (pairs : List (KeyPath × Value)) : Option Value := do
  return .table .braces (← addPairs [] pairs)

/-! ## What a document says -/

/-- The key under which a date appears, as a mapping of one member. -/
def dateKey : String := "$__toml_private_datetime"

namespace Value

mutual

def toDatum : Value → Datum
  | .string s => .string s
  | .integer n => .integer n
  | .float x => .real x.text
  | .boolean b => .boolean b
  | .date written => .mapping [(dateKey, .string written)]
  | .array items => .sequence (toDatums items)
  | .table _ entries => .mapping (toMapping entries)
  | .tables elements => .sequence (toMappings elements)

def toDatums : List Value → List Datum
  | [] => []
  | v :: rest => toDatum v :: toDatums rest

def toMapping : List (String × Value) → List (String × Datum)
  | [] => []
  | (name, v) :: rest => (name, toDatum v) :: toMapping rest

def toMappings : List (List (String × Value)) → List Datum
  | [] => []
  | entries :: rest => .mapping (toMapping entries) :: toMappings rest

end

end Value

end Toml

end QueryCost
