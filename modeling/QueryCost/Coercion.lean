/-
  QueryCost.Coercion — the values variables and arguments take.

  (1) Coercion holds the supplied variables against the definitions of an operation. A
  supplied value counts before a default. Every definition is looked at, so the errors
  are all there are, in the order of the definitions. Only `Int` is checked, the one
  type a list size can have.

  (2) An argument that is a variable takes the variable's value, or else the default of
  the argument. A variable inside a list or an object takes its value or `null`.

  (3) A list size is an integer; a negative one counts as zero and any other value is
  no size.
-/

import QueryCost.Report
import QueryCost.Schema.Basic
import QueryCost.Variables

namespace QueryCost

/-! ## (1) Variables -/

/-- Why a value is refused by a type. -/
def intProblem? : TypeRef → Constant → Option IntProblem
  | .named "Int" _, .number (.integer n _) =>
    if 9223372036854775807 < n then some .notInteger
    else if -2147483648 ≤ n ∧ n ≤ 2147483647 then none
    else some .notInt32
  | .named "Int" _, .null => none
  | .named "Int" _, _ => some .notInteger
  | _, _ => none

/-- What becomes of one definition: an error, a value, or no value. -/
inductive Coerced where
  | error (cause : Cause)
  | value (value : Constant)
  | absent
  deriving DecidableEq, Repr

def VariableDefinition.coerce (d : VariableDefinition) (supplied : Variables) : Coerced :=
  match supplied.get? d.name with
  | some v =>
    if v = .null ∧ d.type.nullable = false then .error (.nullVariable d.name d.type)
    else
      match intProblem? d.type v with
      | some problem => .error (.invalidVariable d.name v problem)
      | none => .value v
  | none =>
    match d.defaultValue with
    | some v => .value v
    | none => if d.type.nullable then .absent else .error (.missingVariable d.name d.type)

/-- Takes in one more definition. -/
def coerceNext (supplied : Variables) (sofar : Variables × List RuleError) (d : VariableDefinition) :
    Variables × List RuleError :=
  match d.coerce supplied with
  | .error cause => (sofar.1, sofar.2 ++ [⟨cause, [d.position]⟩])
  | .value v => (sofar.1.insert d.name v, sofar.2)
  | .absent => sofar

/-- The values of the defined variables, or all that is wrong with them. -/
def coerceVariables (definitions : List VariableDefinition) (supplied : Variables) :
    Except (List RuleError) Variables :=
  let (values, errors) := definitions.foldl (coerceNext supplied) (∅, [])
  if errors.isEmpty then .ok values else .error errors

/-! ## (2) Arguments -/

/-- The value a written argument takes, if it takes one. -/
def resolveArgument (written : Value String) (definition : Option ArgumentEntry) (values : Variables) :
    Option Constant :=
  match written with
  | .var x => (values.get? x).or (definition.bind (·.defaultValue))
  | v => some (v.bind fun x => (values.get? x).getD .null)

/-! ## (3) List sizes -/

def listSize? : Constant → Option Size
  | .number (.integer n _) => some (.ofNat n.toNat)
  | _ => none

end QueryCost
