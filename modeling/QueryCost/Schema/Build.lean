/-
  QueryCost.Schema.Build — schemas from their definitions.

  Definitions are taken in one after the other. The first one of a name, extension or
  not, makes the entry and its kind; an extension of a name that is there is merged into
  the entry, and any other definition of it is a duplicate. In a merge the cost that is
  there stays, a field that is there keeps its place and takes the new content, and
  interfaces and members are appended.

  When all are in, the built-in scalars that are missing are added and the root types
  looked up, queries first. A root type that is named has to exist; one that is not
  named is the type of the conventional name, which only queries need.

  What reads the text is a parameter (`Schema.parseWith`): all that a schema depends on is
  the definitions that are read.
-/

import QueryCost.Cost.Directive
import QueryCost.Schema.Basic
import QueryCost.Sdl.Reader

namespace QueryCost

inductive SchemaError where
  | parse (error : Sdl.Error)
  | duplicateType (name : String)
  | missingQueryType
  | unknownRootType (kind : OperationKind) (name : String)
  | invalidDirective (error : DirectiveError)
  deriving DecidableEq, Repr

def SchemaError.message : SchemaError → String
  | .parse e => "failed to parse schema: " ++ e.message
  | .duplicateType name => "type \"" ++ name ++ "\" is defined more than once"
  | .missingQueryType => "the schema has no query root type"
  | .unknownRootType kind name => "the " ++ kind.text ++ " root type \"" ++ name ++ "\" is not defined"
  | .invalidDirective e => e.message

open Sdl (ArgumentDefinition FieldDefinition TypeDefinition RootNames)

/-! ## Entries -/

namespace ArgumentEntry

def ofDefinition (a : ArgumentDefinition) : ArgumentEntry := ⟨a.name, a.type, a.defaultValue⟩

end ArgumentEntry

namespace FieldEntry

/-- A field of the type called `parent`. -/
def ofDefinition (parent : String) (f : FieldDefinition) : Except DirectiveError FieldEntry := do
  let cost ← DeclaredCost.ofDirectives (.field parent f.name) f.directives
  return ⟨f.name, f.type, .ofPairs (f.arguments.map fun a => (a.name, .ofDefinition a)), cost⟩

end FieldEntry

/-- What one definition or extension adds to its type. -/
structure TypeAddition where
  cost : Option DeclaredCost
  fields : List FieldEntry
  interfaces : List String
  members : List String
  deriving DecidableEq, Repr

namespace TypeAddition

/-- The costs are read type first, then field by field. -/
def ofDefinition (d : TypeDefinition) : Except DirectiveError TypeAddition := do
  let cost ← DeclaredCost.ofDirectives (.type d.name) d.directives
  let fields ← d.body.fields.mapM (FieldEntry.ofDefinition d.name)
  return ⟨cost, fields, d.body.interfaces, d.body.members⟩

end TypeAddition

/-- The type with an addition merged in. -/
def TypeEntry.merge (t : TypeEntry) (a : TypeAddition) : TypeEntry :=
  { t with
    cost := t.cost.or a.cost
    fields := t.fields.insertAll (a.fields.map fun f => (f.name, f))
    interfaces := t.interfaces ++ a.interfaces
    members := t.members ++ a.members }

/-! ## The registry -/

/-- The registry so far and the root types named so far. -/
structure Draft where
  types : Table String TypeEntry
  roots : RootNames
  deriving DecidableEq, Repr

namespace Draft

def empty : Draft := ⟨∅, ⟨none, none, none⟩⟩

/-- Names given later replace those given before. -/
def addRoots (d : Draft) (r : RootNames) : Draft :=
  { d with roots :=
    ⟨r.query.or d.roots.query, r.mutation.or d.roots.mutation, r.subscription.or d.roots.subscription⟩ }

def addType (d : Draft) (t : TypeDefinition) : Except SchemaError Draft := do
  let addition ← (TypeAddition.ofDefinition t).mapError .invalidDirective
  match d.types.get? t.name with
  | some entry =>
    if t.extend then return { d with types := d.types.insert t.name (entry.merge addition) }
    else .error (.duplicateType t.name)
  | none =>
    return { d with types := d.types.insert t.name ((TypeEntry.bare t.name t.body.kind).merge addition) }

def add (d : Draft) : Sdl.Definition → Except SchemaError Draft
  | .schema _ roots => .ok (d.addRoots roots)
  | .type t => d.addType t
  | .directive _ => .ok d

end Draft

/-- The scalars every schema has. -/
def builtinScalars : List String := ["Int", "Float", "String", "Boolean", "ID"]

def withBuiltins (types : Table String TypeEntry) : Table String TypeEntry :=
  builtinScalars.foldl (fun types name => types.insertNew name (.bare name .scalar)) types

/-- The name a root type has by convention. -/
def conventionalRoot : OperationKind → String
  | .query => "Query"
  | .mutation => "Mutation"
  | .subscription => "Subscription"

/-- The three names, one for each kind. -/
theorem conventionalRoot_eq_iff {kind : OperationKind} {name : String} :
    conventionalRoot kind = name ↔
      (kind = .query ∧ name = "Query") ∨ (kind = .mutation ∧ name = "Mutation") ∨
        (kind = .subscription ∧ name = "Subscription") := by
  cases kind <;> simp [conventionalRoot, eq_comm]

/-- The root type of a kind, if there is one. -/
def rootType (types : Table String TypeEntry) (kind : OperationKind) :
    Option String → Except SchemaError (Option String)
  | some name => if types.contains name then .ok (some name) else .error (.unknownRootType kind name)
  | none => .ok (if types.contains (conventionalRoot kind) then some (conventionalRoot kind) else none)

/-- The index with one more object under every interface it names. -/
def indexObject (index : Table String (List String)) (t : TypeEntry) : Table String (List String) :=
  t.interfaces.foldl (fun index i => index.insert i ((index.get? i).getD [] ++ [t.name])) index

/-- The objects under every interface they name. -/
def implementorIndex (types : Table String TypeEntry) : Table String (List String) :=
  (types.values.filter (·.kind = .object)).foldl indexObject ∅

namespace Schema

/-- The schema of a registry with all definitions in it. -/
def ofDraft (d : Draft) : Except SchemaError Schema := do
  let types := withBuiltins d.types
  let query ← rootType types .query d.roots.query
  let queryType ← match query with
    | some name => .ok name
    | none => .error .missingQueryType
  let mutationType ← rootType types .mutation d.roots.mutation
  let subscriptionType ← rootType types .subscription d.roots.subscription
  return {
    queryType, mutationType, subscriptionType, types
    implementors := implementorIndex types
    analyzer := none }

def ofDefinitions (definitions : List Sdl.Definition) : Except SchemaError Schema := do
  ofDraft (← definitions.foldlM Draft.add .empty)

/-- Reads a schema from a text that is read by `parse`. -/
def parseWith (parse : Sdl.Parser) (text : String) : Except SchemaError Schema := do
  ofDefinitions (← (parse text).mapError .parse)

/-- Reads a schema. -/
def parse (text : String) : Except SchemaError Schema := parseWith Sdl.parse text

end Schema

end QueryCost
