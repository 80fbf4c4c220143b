/-
  QueryCost.Document.Reader — reading documents.

  The grammar decides first. A text that fits it can still hold a number out of range
  or selections that nest too deep; of these the first one counts. Only then are the
  definitions put together.
-/

import QueryCost.Document.Basic
import QueryCost.Language.Lexical

namespace QueryCost.Document

open Scan QueryCost.Language

instance : HasNumberFault DocumentError := ⟨.number⟩

abbrev Reader := Scan DocumentError

/-- How many selection sets may lie below the first one of a definition. -/
def depthLimit : Nat := 64

/-- `on Type`. Between the two stand blanks, at least one, and no comment. -/
def typeCondition : Reader String := do
  mark "on"
  let _ ← takeWhile₁ isBlank
  nameHere

def field (selectionSet : Reader (List Selection)) : Reader Selection := do
  let responseName ← optional (do
    let n ← name
    mark ":"
    return n)
  let name ← name
  let arguments ← optional (argumentList value)
  let directives ← directives
  let selections ← optional selectionSet
  return .field ⟨responseName, name, arguments.getD [], directives⟩ (selections.getD [])

def inlineFragment (selectionSet : Reader (List Selection)) : Reader Selection := do
  mark "..."
  let condition ← optional typeCondition
  let directives ← directives
  return .inline condition directives (← selectionSet)

def fragmentSpread : Reader Selection := do
  mark "..."
  notAhead typeCondition
  let fragment ← name
  return .spread fragment (← directives)

/-- The selection set `depth` sets below the first one; `n` bounds how many more nest. -/
def selectionSetAt : Nat → Nat → Reader (List Selection)
  | 0, _ => fail
  | n + 1, depth => do
    mark "\x7b"
    if depthLimit < depth then report .tooDeep
    let below := selectionSetAt n (depth + 1)
    let selections ← many₁ (field below <|> inlineFragment below <|> fragmentSpread)
    mark "\x7d"
    return selections

def selectionSet : Reader (List Selection) := nested fun n => selectionSetAt n 0

def variableDefinition : Reader VariableDefinition := do
  let position ← place
  let name ← variableName
  mark ":"
  let type ← typeRef
  let directives ← directives
  let defaultValue ← optional defaultValue
  return { position, name, type, defaultValue, directives }

def variableDefinitions : Reader (List VariableDefinition) := do
  mark "("
  let definitions ← many variableDefinition
  mark ")"
  return definitions

def operation : Reader Definition := do
  let position ← place
  (do
    let kind ← operationKind
    let name ← optional name
    let defined ← optional variableDefinitions
    let directives ← directives
    let selections ← selectionSet
    return .operation name
      { position, kind, variableDefinitions := defined.getD [], directives, selections }) <|>
  (do
    let selections ← selectionSet
    return .operation none
      { position, kind := .query, variableDefinitions := [], directives := [], selections })

def fragment : Reader Definition := do
  let position ← place
  mark "fragment"
  let name ← name
  let condition ← typeCondition
  let directives ← directives
  let selections ← selectionSet
  return .fragment name { position, condition, directives, selections }

def definitions : Reader (List Definition) := do
  let all ← many₁ (operation <|> fragment)
  blanks
  return all

/-- Reads a document. -/
def parse (text : String) : Except DocumentError Document :=
  match run definitions text with
  | none => .error .grammar
  | some (_, some fault) => .error fault
  | some (all, none) => ofDefinitions all

end QueryCost.Document
