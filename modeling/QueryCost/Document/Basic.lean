/-
  QueryCost.Document.Basic — executable documents.

  A document holds operations and fragments, each under its name and none twice; an
  operation without a name stands alone. Neither table has an order of its own: whoever
  goes through them does so in the order of the positions (`operationsInOrder`,
  `fragmentsInOrder`).

  The parts of a field other than its selections are one structure, so a selection
  recurses only through the selections below it.
-/

import QueryCost.Language.Basic
import QueryCost.Number.Numeral
import QueryCost.Text.Position

namespace QueryCost

structure Field where
  /-- The name in the response, where it has one of its own. -/
  responseName : Option String
  name : String
  /-- In the order written, repeated names included. -/
  arguments : List (String × Value String)
  directives : List (Directive String)
  deriving DecidableEq, Repr

inductive Selection where
  | field (field : Field) (selections : List Selection)
  /-- `... on Type { }`, the type being optional. -/
  | inline (condition : Option String) (directives : List (Directive String)) (selections : List Selection)
  | spread (fragment : String) (directives : List (Directive String))
  deriving Repr

structure VariableDefinition where
  position : Position
  name : String
  type : TypeRef
  defaultValue : Option Constant
  directives : List (Directive String)
  deriving DecidableEq, Repr

structure Operation where
  position : Position
  kind : OperationKind
  variableDefinitions : List VariableDefinition
  directives : List (Directive String)
  selections : List Selection
  deriving Repr

structure Fragment where
  position : Position
  /-- The type it is on. -/
  condition : String
  directives : List (Directive String)
  selections : List Selection
  deriving Repr

structure Document where
  operations : Table (Option String) Operation
  fragments : Table String Fragment
  deriving Repr

namespace Document

def fragment? (d : Document) (name : String) : Option Fragment := d.fragments.get? name

def operationsInOrder (d : Document) : List (Option String × Operation) :=
  sortByPosition (·.2.position) d.operations.entries

def fragmentsInOrder (d : Document) : List (String × Fragment) :=
  sortByPosition (·.2.position) d.fragments.entries

end Document

/-! ## Putting a document together -/

/-- Why a text is no document. -/
inductive DocumentError where
  /-- The text breaks the grammar. -/
  | grammar
  | number (fault : NumeralFault) (position : Position)
  /-- Selections nest too deep. -/
  | tooDeep
  /-- An operation without a name beside another operation. -/
  | multipleOperations (unnamed other : Position)
  | operationDuplicated (name : String) (second first : Position)
  | fragmentDuplicated (name : String) (second first : Position)
  | missingOperation
  deriving DecidableEq, Repr

namespace DocumentError

def message : DocumentError → String
  | .grammar => "the text breaks the grammar of documents"
  | .number fault _ => "invalid number: " ++ fault.message
  | .tooDeep => "recursion limit exceeded."
  | .multipleOperations _ _ => "document contains multiple operations"
  | .operationDuplicated name _ _ => "operation " ++ name ++ " is defined twice"
  | .fragmentDuplicated name _ _ => "fragment " ++ name ++ " is defined twice"
  | .missingOperation => "document does not contain an operation"

def positions : DocumentError → List Position
  | .number _ p => [p]
  | .multipleOperations p q | .operationDuplicated _ p q | .fragmentDuplicated _ p q => [p, q]
  | .grammar | .tooDeep | .missingOperation => []

end DocumentError

/-- One definition as it is written. -/
inductive Definition where
  | operation (name : Option String) (operation : Operation)
  | fragment (name : String) (fragment : Fragment)
  deriving Repr

namespace Document

def empty : Document := ⟨∅, ∅⟩

instance : Inhabited Document := ⟨empty⟩

/-- The document with one more definition. -/
def add (d : Document) : Definition → Except DocumentError Document
  | .operation none op =>
    match d.operations.entries with
    | [] => .ok { d with operations := d.operations.insert none op }
    | (_, first) :: _ => .error (.multipleOperations op.position first.position)
  | .operation (some name) op =>
    match d.operations.get? none, d.operations.get? (some name) with
    | some first, _ => .error (.multipleOperations first.position op.position)
    | none, some first => .error (.operationDuplicated name op.position first.position)
    | none, none => .ok { d with operations := d.operations.insert (some name) op }
  | .fragment name f =>
    match d.fragments.get? name with
    | some first => .error (.fragmentDuplicated name f.position first.position)
    | none => .ok { d with fragments := d.fragments.insert name f }

/-- The document of these definitions: the first clash in their order counts, then a
    lack of operations. -/
def ofDefinitions (definitions : List Definition) : Except DocumentError Document := do
  let d ← definitions.foldlM add empty
  if d.operations.entries.isEmpty then .error .missingOperation else .ok d

end Document

end QueryCost
