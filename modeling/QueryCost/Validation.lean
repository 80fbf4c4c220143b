/-
  QueryCost.Validation — validating requests.

  An `Execution` is what a request carries from one pass to the next: its variables, and
  the errors and the complexity of the last pass. `validate` runs one pass; without an
  analyzer it fails and leaves the execution as it is. `check` answers a whole request:
  a complexity within the limit, or the errors to send back, at least one.
-/

import QueryCost.Document.Reader
import QueryCost.Pass
import QueryCost.Schema.Build

namespace QueryCost

structure Execution where
  supplied : Variables
  errors : List RuleError
  complexity : Option Complexity
  deriving DecidableEq, Repr

namespace Execution

def ofVariables (supplied : Variables) : Execution := ⟨supplied, [], none⟩

def hasErrors (e : Execution) : Bool := !e.errors.isEmpty

/-- Forgets the last pass. -/
def reset (e : Execution) : Execution := { e with errors := [], complexity := none }

def extendErrors (e : Execution) (errors : List RuleError) : Execution := { e with errors := e.errors ++ errors }

def publish (e : Execution) (c : Complexity) : Execution := { e with complexity := some c }

end Execution

/-- A pass that cannot begin. -/
inductive ValidationError where
  | missingAnalyzer
  deriving DecidableEq, Repr

def ValidationError.cause : ValidationError → Cause
  | .missingAnalyzer => .missingAnalyzer

def ValidationError.message (e : ValidationError) : String := e.cause.message

/-- What a pass leaves. -/
structure Validated where
  execution : Execution
  failure : Option ValidationError
  log : List Event
  deriving DecidableEq, Repr

/-- The state a pass over a document comes to. -/
def runPass (a : Analyzer) (schema : Schema) (document : Document) (supplied : Variables) : Pass :=
  (Pass.visitor a).walk schema document supplied .start

/-- Runs one pass. -/
def validate (schema : Schema) (document : Document) (e : Execution) : Validated :=
  match schema.analyzer with
  | none => ⟨e, some .missingAnalyzer, [.missingAnalyzer]⟩
  | some a =>
    let pass := runPass a schema document e.supplied
    let e := e.reset.extendErrors pass.errors
    match pass.result with
    | none => ⟨e, none, pass.log⟩
    | some c => ⟨e.publish c, none, pass.log ++ [.computed c.current c.max]⟩

/-- Answers a request whose text is read by `parse`. -/
def checkWith (parse : String → Except DocumentError Document) (schema : Schema) (text : String)
    (supplied : Variables) : Except (List RuleError) Complexity :=
  match parse text with
  | .error e => .error [⟨.document e, e.positions⟩]
  | .ok document =>
    let v := validate schema document (.ofVariables supplied)
    match v.failure with
    | some e => .error [⟨e.cause, []⟩]
    | none =>
      match v.execution.complexity with
      | some c => if v.execution.hasErrors then .error v.execution.errors else .ok c
      | none => .error v.execution.errors

/-- Answers a request. -/
def check (schema : Schema) (text : String) (supplied : Variables) : Except (List RuleError) Complexity :=
  checkWith Document.parse schema text supplied

end QueryCost
