/-
  QueryCost.Sdl.Reader — reading schema documents.

  Descriptions, enum values, input fields and the definitions of directives are read to
  their end, since a fault may stand in them, and left out.
-/

import QueryCost.Language.Lexical
import QueryCost.Sdl.Basic

namespace QueryCost.Sdl

open Scan QueryCost.Language

instance : HasNumberFault Error := ⟨.number⟩

abbrev Reader := Scan Error

variable {α : Type}

/-- What may stand before a definition. -/
def description : Reader Unit := do let _ ← optional string

/-- At least one, with a mark between two of them and possibly before the first. -/
def separated (separator : String) (p : Reader α) : Reader (List α) := do
  let _ ← optional (mark separator)
  let first ← p
  let rest ← many (do mark separator; p)
  return first :: rest

/-- At least one, between two marks. -/
def enclosed (opening closing : String) (p : Reader α) : Reader (List α) := do
  mark opening
  let all ← many₁ p
  mark closing
  return all

/-! ## Fields -/

def argumentDefinition : Reader ArgumentDefinition := do
  description
  let name ← name
  mark ":"
  let type ← typeRef
  let defaultValue ← optional defaultValue
  let directives ← constantDirectives
  return { name, type, defaultValue, directives }

def argumentDefinitions : Reader (List ArgumentDefinition) := enclosed "(" ")" argumentDefinition

def fieldDefinition : Reader FieldDefinition := do
  description
  let name ← name
  let arguments ← optional argumentDefinitions
  mark ":"
  let type ← typeRef
  let directives ← constantDirectives
  return { name, arguments := arguments.getD [], type, directives }

def fieldDefinitions : Reader (List FieldDefinition) := enclosed "\x7b" "\x7d" fieldDefinition

def interfaceNames : Reader (List String) := do
  mark "implements"
  separated "&" name

def memberNames : Reader (List String) := do
  mark "="
  separated "|" name

def enumValues : Reader Unit := do
  let _ ← enclosed "\x7b" "\x7d" (do
    description
    let _ ← enumName
    constantDirectives)

def inputFields : Reader Unit := do
  let _ ← enclosed "\x7b" "\x7d" argumentDefinition

/-! ## Types -/

/-- The parts of a type after its directives, which a new type may leave out. -/
def newType (keyword : String) (before : Reader α) (after : Reader TypeBody) (none : TypeBody)
    (join : α → TypeBody → TypeBody) : Reader TypeDefinition := do
  description
  mark keyword
  let name ← name
  let head ← before
  let directives ← constantDirectives
  let body ← optional after
  return { extend := false, name, directives, body := join head (body.getD none) }

/-- An extension has to say something: directives, or what follows them, or both. -/
def extension (keyword : String) (before : Reader α) (after : Reader TypeBody) (none : TypeBody)
    (join : α → TypeBody → TypeBody) : Reader TypeDefinition := do
  mark "extend"
  mark keyword
  let name ← name
  let head ← before
  (do
    let directives ← constantDirectives
    let body ← after
    return { extend := true, name, directives, body := join head body }) <|>
  (do
    let directives ← someConstantDirectives
    return { extend := true, name, directives, body := join head none })

/-- An object type may also be extended by interfaces alone. -/
def interfacesExtension : Reader TypeDefinition := do
  mark "extend"
  mark "type"
  let name ← name
  let interfaces ← interfaceNames
  return { extend := true, name, directives := [], body := .object interfaces [] }

def noPart : Reader Unit := pure ()

def noInterfaces : Reader (List String) := do return (← optional interfaceNames).getD []

def keepBody : Unit → TypeBody → TypeBody := fun _ body => body

def objectWith (interfaces : List String) (body : TypeBody) : TypeBody := .object interfaces body.fields

def interfaceWith (interfaces : List String) (body : TypeBody) : TypeBody := .interface interfaces body.fields

def scalarType : Reader TypeDefinition :=
  newType "scalar" noPart fail .scalar keepBody <|> extension "scalar" noPart fail .scalar keepBody

def objectType : Reader TypeDefinition :=
  let fields := do return .object [] (← fieldDefinitions)
  newType "type" noInterfaces fields (.object [] []) objectWith <|>
  extension "type" noInterfaces fields (.object [] []) objectWith <|>
  interfacesExtension

def interfaceType : Reader TypeDefinition :=
  let fields := do return .interface [] (← fieldDefinitions)
  newType "interface" noInterfaces fields (.interface [] []) interfaceWith <|>
  extension "interface" noInterfaces fields (.interface [] []) interfaceWith

def unionType : Reader TypeDefinition :=
  let members := do return .union (← memberNames)
  newType "union" noPart members (.union []) keepBody <|> extension "union" noPart members (.union []) keepBody

def enumType : Reader TypeDefinition :=
  let values := do enumValues; return .enum
  newType "enum" noPart values .enum keepBody <|> extension "enum" noPart values .enum keepBody

def inputType : Reader TypeDefinition :=
  let fields := do inputFields; return .input
  newType "input" noPart fields .input keepBody <|> extension "input" noPart fields .input keepBody

def typeDefinition : Reader TypeDefinition :=
  scalarType <|> objectType <|> interfaceType <|> unionType <|> enumType <|> inputType

/-! ## Schemas and directives -/

/-- One root, with the place of its operation kind. -/
def rootName : Reader (OperationKind × Position × String) := do
  let position ← place
  let kind ← operationKind
  mark ":"
  return (kind, position, ← name)

/-- The roots named so far with one more; a second of one kind is a fault. -/
def RootNames.add (schema : Position) (roots : RootNames) :
    OperationKind × Position × String → Reader RootNames
  | (kind, position, name) => do
    let taken := match kind with
      | .query => roots.query
      | .mutation => roots.mutation
      | .subscription => roots.subscription
    if taken.isSome then report (.multipleRoots kind position schema)
    match kind with
    | .query => return { roots with query := some name }
    | .mutation => return { roots with mutation := some name }
    | .subscription => return { roots with subscription := some name }

def rootNames (schema : Position) : Reader RootNames := do
  mark "\x7b"
  let all ← many₁ rootName
  mark "\x7d"
  all.foldlM (RootNames.add schema) ⟨none, none, none⟩

def newSchema : Reader Definition := do
  let position ← place
  mark "schema"
  let _ ← constantDirectives
  let roots ← rootNames position
  if roots.query.isNone then report (.missingQueryRoot position)
  return .schema false roots

def schemaExtension : Reader Definition := do
  let position ← place
  mark "extend"
  mark "schema"
  (do
    let _ ← constantDirectives
    return .schema true (← rootNames position)) <|>
  (do
    let _ ← someConstantDirectives
    return .schema true ⟨none, none, none⟩)

/-- Where a directive may be applied. A name that another one begins with comes later. -/
def directiveLocations : List String :=
  ["QUERY", "MUTATION", "SUBSCRIPTION", "FIELD_DEFINITION", "FIELD", "FRAGMENT_DEFINITION",
    "FRAGMENT_SPREAD", "INLINE_FRAGMENT", "VARIABLE_DEFINITION", "SCHEMA", "SCALAR", "OBJECT",
    "ARGUMENT_DEFINITION", "INTERFACE", "UNION", "ENUM_VALUE", "ENUM", "INPUT_OBJECT",
    "INPUT_FIELD_DEFINITION"]

def directiveLocation : Reader Unit :=
  directiveLocations.foldr (fun s other => mark s <|> other) fail

def directiveDefinition : Reader Definition := do
  description
  mark "directive"
  mark "@"
  let name ← name
  let _ ← optional argumentDefinitions
  let _ ← optional (mark "repeatable")
  mark "on"
  let _ ← separated "|" directiveLocation
  return .directive name

def definitions : Reader (List Definition) := do
  let all ← many₁ (newSchema <|> schemaExtension <|>
    (do return .type (← typeDefinition)) <|> directiveDefinition)
  blanks
  return all

/-- Reads a schema document. -/
def parse (text : String) : Except Error (List Definition) :=
  match run definitions text with
  | none => .error .grammar
  | some (_, some fault) => .error fault
  | some (all, none) => .ok all

end QueryCost.Sdl
