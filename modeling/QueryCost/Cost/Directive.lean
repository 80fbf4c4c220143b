/-
  QueryCost.Cost.Directive — declaring costs by directives.

  Of the directives on a field or a type, the first that is `@cost` or `@listCost`
  declares its cost (`DeclaredCost.ofDirectives`). Of an argument that is repeated the
  first occurrence counts; an absent argument and `null` leave a number open. Arguments
  are read in the order complexity, assumed size, names, and the first that cannot be
  read is the error.

  `DeclaredCost.toDirective` writes a cost as the directive that declares it.
-/

import QueryCost.Cost.Declared
import QueryCost.Language.Basic

namespace QueryCost

/-- The directive of flat costs. -/
def costDirective : String := "cost"

/-- The directive of list costs. -/
def listCostDirective : String := "listCost"

/-- The definitions of the two directives, to stand before a schema that uses them. -/
def costDirectiveDefinitions : String :=
  "\ndirective @cost(complexity: Int) on FIELD_DEFINITION | OBJECT | INTERFACE | UNION | SCALAR | ENUM\n" ++
  "\ndirective @listCost(\n  complexity: Int\n  assumedSize: Int\n  arguments: [String!]\n" ++
  ") on FIELD_DEFINITION | OBJECT | INTERFACE | UNION\n"

/-- What a cost is declared on. -/
inductive Element where
  | type (name : String)
  | field (type name : String)
  deriving DecidableEq, Repr

def Element.text : Element → String
  | .type t => t
  | .field t f => t ++ "." ++ f

/-- Why an argument cannot be read. -/
inductive ArgumentProblem where
  | notSize (argument : String) (found : Constant)
  | notNames (argument : String) (found : Constant)
  /-- An element of a list of names. -/
  | notName (argument : String) (found : Constant)
  deriving DecidableEq, Repr

def ArgumentProblem.message : ArgumentProblem → String
  | .notSize argument found => argument ++ " must be a non-negative integer, got " ++ found.text
  | .notNames argument found => argument ++ " must be a list of strings, got " ++ found.text
  | .notName argument found => argument ++ " must only contain strings, got " ++ found.text

structure DirectiveError where
  directive : String
  element : Element
  problem : ArgumentProblem
  deriving DecidableEq, Repr

def DirectiveError.message (e : DirectiveError) : String :=
  "invalid @" ++ e.directive ++ " on " ++ e.element.text ++ ": " ++ e.problem.message

namespace Directive

/-- A number from zero on, or nothing. -/
def size (d : Directive Empty) (argument : String) : Except ArgumentProblem (Option Size) :=
  match d.argument? argument with
  | none | some .null => .ok none
  | some (.number n) =>
    match n.size? with
    | some a => .ok (some a)
    | none => .error (.notSize argument (.number n))
  | some v => .error (.notSize argument v)

/-- The names in a list of strings. -/
def listedNames (argument : String) : List Constant → Except ArgumentProblem (List String)
  | [] => .ok []
  | .string s :: rest => do return s :: (← listedNames argument rest)
  | v :: _ => .error (.notName argument v)

/-- A list of strings; a single string is a list of one. -/
def names (d : Directive Empty) (argument : String) : Except ArgumentProblem NameSet :=
  match d.argument? argument with
  | none | some .null => .ok ∅
  | some (.string s) => .ok (.ofList [s])
  | some (.list items) => do return .ofList (← listedNames argument items)
  | some v => .error (.notNames argument v)

end Directive

namespace DeclaredCost

/-- The cost one directive declares; none for directives that declare no cost. -/
def ofDirective (d : Directive Empty) : Except ArgumentProblem (Option DeclaredCost) :=
  if d.name = costDirective then do
    return some (.flat (← d.size "complexity"))
  else if d.name = listCostDirective then do
    let complexity ← d.size "complexity"
    let assumedSize ← d.size "assumedSize"
    let arguments ← d.names "arguments"
    return some (.list complexity assumedSize arguments)
  else .ok none

/-- The cost the directives on an element declare. -/
def ofDirectives (element : Element) : List (Directive Empty) → Except DirectiveError (Option DeclaredCost)
  | [] => .ok none
  | d :: rest =>
    match ofDirective d with
    | .ok (some cost) => .ok (some cost)
    | .ok none => ofDirectives element rest
    | .error problem => .error ⟨d.name, element, problem⟩

/-- An open number as an argument. -/
def sizeArgument (n : Option Size) : Constant :=
  match n with
  | some a => .number (.ofSize a)
  | none => .null

/-- The directive that declares a cost. -/
def toDirective : DeclaredCost → Directive Empty
  | .flat complexity => ⟨costDirective, [("complexity", sizeArgument complexity)]⟩
  | .list complexity assumedSize arguments =>
    ⟨listCostDirective,
      [("complexity", sizeArgument complexity),
        ("assumedSize", sizeArgument assumedSize),
        ("arguments", .list (arguments.names.map .string))]⟩

end DeclaredCost

end QueryCost
