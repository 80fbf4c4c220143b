/-
  QueryCost.Sdl.Basic — schema documents.

  A schema document is a list of definitions, each either new or an extension. Kept of
  them is what can end up in a schema: the names of the root types, and of a type its
  kind, its directives, its fields with their arguments, the interfaces it names and,
  for a union, its members.
-/

import QueryCost.Language.Basic
import QueryCost.Number.Numeral
import QueryCost.Text.Position

namespace QueryCost

inductive TypeKind where
  | scalar
  | object
  | interface
  | union
  | enum
  | input
  deriving DecidableEq, Repr, Inhabited

namespace Sdl

/-- An argument of a field. -/
structure ArgumentDefinition where
  name : String
  type : TypeRef
  defaultValue : Option Constant
  directives : List (Directive Empty)
  deriving DecidableEq, Repr

structure FieldDefinition where
  name : String
  arguments : List ArgumentDefinition
  type : TypeRef
  directives : List (Directive Empty)
  deriving DecidableEq, Repr

/-- What a type consists of, by its kind. -/
inductive TypeBody where
  | scalar
  | object (interfaces : List String) (fields : List FieldDefinition)
  | interface (interfaces : List String) (fields : List FieldDefinition)
  | union (members : List String)
  | enum
  | input
  deriving DecidableEq, Repr

namespace TypeBody

def kind : TypeBody → TypeKind
  | .scalar => .scalar
  | .object _ _ => .object
  | .interface _ _ => .interface
  | .union _ => .union
  | .enum => .enum
  | .input => .input

def fields : TypeBody → List FieldDefinition
  | .object _ fs | .interface _ fs => fs
  | .scalar | .union _ | .enum | .input => []

def interfaces : TypeBody → List String
  | .object is _ | .interface is _ => is
  | .scalar | .union _ | .enum | .input => []

def members : TypeBody → List String
  | .union ms => ms
  | .scalar | .object _ _ | .interface _ _ | .enum | .input => []

/-- A union has the members it is written with, and nothing else has any. -/
theorem members_eq_iff {body : TypeBody} {names : List String} :
    body.members = names ↔ body = .union names ∨ (body.kind ≠ .union ∧ names = []) := by
  cases body <;> simp [members, kind, eq_comm]

end TypeBody

structure TypeDefinition where
  extend : Bool
  name : String
  directives : List (Directive Empty)
  body : TypeBody
  deriving DecidableEq, Repr

/-- The root types one schema definition or extension names. -/
structure RootNames where
  query : Option String
  mutation : Option String
  subscription : Option String
  deriving DecidableEq, Repr, Inhabited

inductive Definition where
  | schema (extend : Bool) (roots : RootNames)
  | type (definition : TypeDefinition)
  | directive (name : String)
  deriving DecidableEq, Repr

/-- Why a text is no schema document. -/
inductive Error where
  /-- The text breaks the grammar. -/
  | grammar
  | number (fault : NumeralFault) (position : Position)
  /-- One schema definition names the root of an operation kind twice. -/
  | multipleRoots (kind : OperationKind) (root schema : Position)
  | missingQueryRoot (schema : Position)
  deriving DecidableEq, Repr

namespace Error

def message : Error → String
  | .grammar => "the text breaks the grammar of schemas"
  | .number fault _ => "invalid number: " ++ fault.message
  | .multipleRoots kind _ _ => "multiple " ++ kind.text ++ " roots in schema definition"
  | .missingQueryRoot _ => "schema definition is missing query root"

def positions : Error → List Position
  | .grammar => []
  | .number _ p | .missingQueryRoot p => [p]
  | .multipleRoots _ p q => [p, q]

end Error

/-- What reads the definitions of a text. -/
abbrev Parser := String → Except Error (List Definition)

end Sdl

end QueryCost
