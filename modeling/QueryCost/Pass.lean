/-
  QueryCost.Pass — one pass over a document.

  The visitor of a pass builds the cost tree as the walk goes: a stack of frames holds
  the nodes that are open, the document's own at the bottom, and what is selected is
  attached to the node on top. A field on a union has no node: it opens the node on top
  once more, so what is below it is attached there. Fragments are built apart and
  counted through their spreads.

  Variables are coerced once for each scope, when the first field needs them. A scope is
  an operation, told by its position, or all fragments together, for which a variable is
  the one the first operation that defines it says it is. Where coercion fails, fields
  whose list sizes depend on arguments are pruned.

  At the end the tree is folded, and the total is held to the limit.
-/

import QueryCost.Coercion
import QueryCost.Cost.Fold
import QueryCost.Cost.Resolve
import QueryCost.Event
import QueryCost.Walk

namespace QueryCost

/-- Fields the system itself answers. -/
def isIntrospection (field : String) : Bool := ['_', '_'].isPrefixOf field.toList

/-- Adds a definition where its name is new. -/
def addDefinition (definitions : List VariableDefinition) (d : VariableDefinition) : List VariableDefinition :=
  if definitions.all (·.name ≠ d.name) then definitions ++ [d] else definitions

/-- The variables of the fragments: each name as it is first defined, operation by
    operation. -/
def Document.fragmentScopeDefinitions (d : Document) : List VariableDefinition :=
  (d.operationsInOrder.flatMap (·.2.variableDefinitions)).foldl addDefinition []

/-- An operation by its position, or the scope of all fragments. -/
abbrev VariableScope := Option Position

structure Pass where
  tree : CostTree
  /-- The open nodes, the top first. -/
  frames : List NodeId
  operations : List Operation
  /-- The variables of the scopes coerced so far, none where coercion failed. -/
  coerced : Table VariableScope (Option Variables)
  errors : List RuleError
  log : List Event
  result : Option Complexity
  deriving Repr

namespace Pass

def start : Pass := ⟨.empty, [], [], ∅, [], [], none⟩

def note (s : Pass) (e : Event) : Pass := { s with log := s.log ++ [e] }

/-- Reports an error unless it was reported before. -/
def reportNew (s : Pass) (e : RuleError) : Pass :=
  if e ∈ s.errors then s else { s with errors := s.errors ++ [e] }

/-- Opens a node that is no child. -/
def openDetached (s : Pass) (n : CostNode) : Pass :=
  { s with tree := s.tree.push n, frames := s.tree.nextId :: s.frames }

/-- Adds a child to the open node. -/
def attach (s : Pass) (c : Child) : Pass :=
  match s.frames with
  | [] => s
  | top :: _ => { s with tree := s.tree.attach top c }

/-- Opens a node as a child of the open one. -/
def openChild (s : Pass) (n : CostNode) : Pass :=
  let id := s.tree.nextId
  let s := { s with tree := s.tree.push n }.attach (.node id)
  { s with frames := id :: s.frames }

/-- Opens the open node once more. -/
def reopen (s : Pass) : Pass :=
  match s.frames with
  | [] => s
  | top :: rest => { s with frames := top :: top :: rest }

/-- Closes the open node. -/
def close (s : Pass) : Pass := { s with frames := s.frames.tail }

/-! ## Variables -/

def scope (s : Pass) : VariableScope := s.operations.head?.map (·.position)

/-- The definitions of the scope. -/
def scopeDefinitions (s : Pass) (d : Document) : List VariableDefinition :=
  match s.operations with
  | op :: _ => op.variableDefinitions
  | [] => d.fragmentScopeDefinitions

/-- The variables of the scope, none where coercion fails; coerced on first need. -/
def scopeValues (p : Place) (s : Pass) : Option Variables × Pass :=
  match s.coerced.get? s.scope with
  | some values => (values, s)
  | none =>
    match coerceVariables (s.scopeDefinitions p.document) p.supplied with
    | .ok values => (some values, { s with coerced := s.coerced.insert s.scope (some values) })
    | .error errors =>
      let s := errors.foldl reportNew (s.note (.uncoercedVariables errors.length))
      (none, { s with coerced := s.coerced.insert s.scope none })

/-! ## Fields -/

/-- The sizes a field's arguments give, in the order they are written. -/
def sizes (field : Field) (entry : FieldEntry) (names : NameSet) (values : Variables) : List Size :=
  (field.arguments.filter (·.1 ∈ names)).filterMap fun (name, written) =>
    (resolveArgument written (entry.argument? name) values).bind listSize?

/-- The flat cost of the type a field leads to. -/
def landingCost (p : Place) : Size :=
  match p.currentType.bind p.schema.typeCost with
  | some (.flat complexity) => complexity.getD 0
  | _ => 0

/-- The sizes of a field whose cost names size arguments; none where the variables of
    the scope cannot be coerced. A field without size arguments needs no variables. -/
def multipliers (p : Place) (field : Field) (entry : FieldEntry) (cost : Option DeclaredCost) (s : Pass) :
    Option (List Size) × Pass :=
  match cost.bind (·.sizeArguments?) with
  | none => (some [], s)
  | some names =>
    match s.scopeValues p with
    | (none, s) => (none, s)
    | (some values, s) => (some (sizes field entry names values), s)

def enterField (p : Place) (field : Field) (_ : List Selection) (s : Pass) : Flow × Pass :=
  if isIntrospection field.name then (.skip, s)
  else
    match p.parentType with
    | none => (.skip, s.note (.untypedField field.name))
    | some parent =>
      if parent.isUnion then (.next, s.reopen)
      else
        match parent.field? field.name with
        | none => (.skip, s.note (.unknownField parent.name field.name))
        | some entry =>
          let cost := p.schema.fieldCost parent field.name
          match s.multipliers p field entry cost with
          | (none, s) => (.skip, s.note (.prunedField field.name))
          | (some multipliers, s) =>
            (.next, s.openChild
              { CostNode.field cost with ownComplexity := landingCost p, multipliers := multipliers })

def spread (p : Place) (fragment : String) (s : Pass) : Pass :=
  match p.document.fragment? fragment with
  | none => s.note (.unknownSpread fragment)
  | some _ => s.attach (.fragment fragment)

/-! ## The document -/

def enterFragment (name : String) (s : Pass) : Pass :=
  let id := s.tree.nextId
  let s := s.openDetached .container
  { s with tree := s.tree.register name id }

/-- Holds a total to the limit. -/
def judge (a : Analyzer) (total : Size) (s : Pass) : Pass :=
  let s := match (evaluate total a.maxComplexity).error? with
    | some e => { s.note (.rejected total a.maxComplexity) with errors := s.errors ++ [e] }
    | none => s
  { s with result := some ⟨total, a.maxComplexity⟩ }

/-- Reports a cycle at the definition of its first fragment. -/
def reportCycle (d : Document) (fragments : List String) (s : Pass) : Pass :=
  let locations := match d.fragment? (fragments.headD "") with
    | some f => [f.position]
    | none => []
  { s with errors := s.errors ++ [⟨.cycle fragments, locations⟩] }

/-- Closes the document's node and folds the tree below it. The trees a pass builds
    always fold to a total or a cycle. -/
def finish (a : Analyzer) (p : Place) (s : Pass) : Pass :=
  match s.frames with
  | [] => s
  | root :: _ =>
    let (result, log) := s.tree.fold root a.defaultComplexity
    let s := { s.close with log := s.log ++ log }
    match result with
    | .total total => s.judge a total
    | .cycle fragments => s.reportCycle p.document fragments
    | .unfinished => s

def visitor (a : Analyzer) : Visitor Pass where
  enterDocument _ s := s.openDetached .container
  exitDocument p s := s.finish a p
  enterOperation _ _ op s := { s with operations := op :: s.operations }
  exitOperation _ _ _ s := { s with operations := s.operations.tail }
  enterFragment _ name _ s := s.enterFragment name
  exitFragment _ _ _ s := s.close
  enterField := enterField
  exitField _ _ _ s := s.close
  spread := spread

end Pass

end QueryCost
