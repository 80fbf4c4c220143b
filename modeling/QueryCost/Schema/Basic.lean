/-
  QueryCost.Schema.Basic — schemas.

  A schema is a registry of types, the names of its root types and an index from
  interfaces to the objects that implement them. It is built once
  (`QueryCost.Schema.Build`) and only looked up in afterwards.
-/

import QueryCost.Analyzer
import QueryCost.Cost.Declared
import QueryCost.Sdl.Basic

namespace QueryCost

structure ArgumentEntry where
  name : String
  type : TypeRef
  defaultValue : Option Constant
  deriving DecidableEq, Repr

structure FieldEntry where
  name : String
  type : TypeRef
  arguments : Table String ArgumentEntry
  cost : Option DeclaredCost
  deriving DecidableEq, Repr

/-- The type a field leads to, without lists and marks. -/
def FieldEntry.target (f : FieldEntry) : String := f.type.name

def FieldEntry.argument? (f : FieldEntry) (name : String) : Option ArgumentEntry := f.arguments.get? name

structure TypeEntry where
  name : String
  kind : TypeKind
  fields : Table String FieldEntry
  /-- As written, repeated names included. -/
  interfaces : List String
  /-- The members of a union. -/
  members : List String
  cost : Option DeclaredCost
  deriving DecidableEq, Repr

namespace TypeEntry

/-- A type nothing is known of but its kind. -/
def bare (name : String) (kind : TypeKind) : TypeEntry := ⟨name, kind, ∅, [], [], none⟩

def field? (t : TypeEntry) (name : String) : Option FieldEntry := t.fields.get? name

def isUnion (t : TypeEntry) : Bool := t.kind = .union

def isInterface (t : TypeEntry) : Bool := t.kind = .interface

end TypeEntry

structure Schema where
  queryType : String
  mutationType : Option String
  subscriptionType : Option String
  types : Table String TypeEntry
  /-- From the name of an interface to the names of the objects that name it, an object
      once for every time. -/
  implementors : Table String (List String)
  analyzer : Option Analyzer
  deriving DecidableEq, Repr

namespace Schema

def withAnalyzer (s : Schema) (a : Analyzer) : Schema := { s with analyzer := some a }

def type? (s : Schema) (name : String) : Option TypeEntry := s.types.get? name

/-- The root type of a kind of operation. -/
def root? (s : Schema) : OperationKind → Option TypeEntry
  | .query => s.type? s.queryType
  | .mutation => s.mutationType.bind s.type?
  | .subscription => s.subscriptionType.bind s.type?

/-- The objects that implement an interface, in the order of the registry; other types
    have none. -/
def implementations (s : Schema) (t : TypeEntry) : List TypeEntry :=
  if t.isInterface then ((s.implementors.get? t.name).getD []).filterMap s.type? else []

end Schema

end QueryCost
