/-
  QueryCost.Proofs.Pass.SharedScopes — scopes that operations share.

  Variables are coerced once for a position, by the first operation there whose selections
  need them (the scope's owner), and every other operation at this position is given the
  same values. An operation that needs no values is counted alike with any. So each
  operation counts with the values of its scope, and the scopes of the operations can be
  read off the document, however many operations share one.

  - `outlinesAll_of_needsNone`: selections that need no values have the same outlines
    with any.
  - `operation_scoped`, `operations_scoped`: the scopes coerced behind operations, and the
    outlines grafted.
  - `built_scoped`: the tree of a pass is that of the outlines of its operations with the
    values of their scopes. Where operations at one position define the same variables
    (`ScopesAgree`), these are the values of its own (`scopeValues_of_agree`).
  - `coerced_built`: what a pass has coerced for a scope are these values.
  - `built_coerced`: a pass coerces the scopes in need (`neededScopes`), in the order in which
    they are needed first, and reports what is wrong with their variables, each error once.
    Two passes report the same when their operations are at the same places, define the same
    variables and need them alike (`built_errors_congr`).
  - `built_settled`: where operations have distinct positions, these are the scopes of the
    operations that need their own variables, and that of the fragments.
-/

import QueryCost.Proofs.Pass.VariableErrors
import QueryCost.Proofs.Tables

namespace QueryCost

/-! ## Selections that need no values -/

section

variable {document : Document} {schema : Schema} {values values' : Option Variables}

/-- A field has the same role with any values, unless its sizes come from arguments. -/
theorem fieldRole_of_needsNone {parent : Option TypeEntry} {f : Field}
    (h : (fieldRole schema (some ∅) parent f).needsValues = false) :
    fieldRole schema values parent f = fieldRole schema values' parent f := by
  unfold fieldRole at h ⊢
  split
  · rfl
  · rename_i hname
    rw [if_neg hname] at h
    cases parent with
    | none => rfl
    | some parent =>
      simp only at h ⊢
      split
      · rfl
      · rename_i hunion
        rw [if_neg hunion] at h
        cases hentry : parent.field? f.name with
        | none => rfl
        | some entry =>
          simp only [hentry] at h ⊢
          -- without size arguments there are no sizes, whatever the values
          cases hneeds : (schema.fieldCost parent f.name).bind (·.sizeArguments?) with
          | none => simp only [listSizes, hneeds]
          | some names => simp [listSizes, hneeds, FieldRole.needsValues] at h

mutual

theorem Selection.outlines_of_needsNone (parent : Option TypeEntry) (s : Selection)
    (h : s.needsValues schema parent = false) :
    s.outlines document schema values parent = s.outlines document schema values' parent := by
  cases s with
  | field f below =>
    by_cases hnothing : fieldRole schema (some ∅) parent f = .nothing
    · have hneeds : (fieldRole schema (some ∅) parent f).needsValues = false := by rw [hnothing]; rfl
      have hrole : ∀ values, fieldRole schema values parent f = .nothing :=
        fun values => (fieldRole_of_needsNone hneeds).trans hnothing
      simp only [outlines, hrole]
    · rw [needsValues_of_entered hnothing, Bool.or_eq_false_iff] at h
      have hrole : fieldRole schema values parent f = fieldRole schema values' parent f := fieldRole_of_needsNone h.1
      have hbelow := outlinesAll_of_needsNone (schema.landing parent f.name) below h.2
      simp only [outlines, hrole, hbelow]
  | inline condition directives below =>
    cases condition with
    | none => exact outlinesAll_of_needsNone parent below h
    | some t => exact outlinesAll_of_needsNone (schema.type? t) below h
  | spread f directives => rfl

theorem Selection.outlinesAll_of_needsNone (parent : Option TypeEntry) (selections : List Selection)
    (h : needsValuesAll schema parent selections = false) :
    outlinesAll document schema values parent selections = outlinesAll document schema values' parent selections := by
  cases selections with
  | nil => rfl
  | cons s rest =>
    rw [needsValuesAll, Bool.or_eq_false_iff] at h
    rw [outlinesAll, outlinesAll, outlines_of_needsNone parent s h.1, outlinesAll_of_needsNone parent rest h.2]

end

end

/-! ## The scopes of a document -/

/-- The operation's selections need the values of its variables. -/
def Operation.needsValues (schema : Schema) (op : Operation) : Bool :=
  Selection.needsValuesAll schema (schema.root? op.kind) op.selections

/-- The first of the operations at the position that needs the values of its variables. -/
def firstInNeed (schema : Schema) (position : Position) (ops : List (Option String × Operation)) : Option Operation :=
  (ops.map Prod.snd).find? fun op => op.position = position && op.needsValues schema

theorem firstInNeed_cons (schema : Schema) (position : Position) (entry : Option String × Operation)
    (ops : List (Option String × Operation)) :
    firstInNeed schema position (entry :: ops) =
      if entry.2.position = position && entry.2.needsValues schema then some entry.2
      else firstInNeed schema position ops := by
  simp only [firstInNeed, List.map_cons, List.find?_cons]
  split <;> rename_i h <;> simp only [h] <;> rfl

namespace Document

variable (document : Document) (schema : Schema) (supplied : Variables)

/-- The variables of a scope: those of the first operation in need of them. -/
def scopeDefinitions : VariableScope → List VariableDefinition
  | some position =>
    match firstInNeed schema position document.operationsInOrder with
    | some op => op.variableDefinitions
    | none => []
  | none => document.fragmentScopeDefinitions

/-- The values of the variables of a scope, none where they cannot be coerced. -/
def scopeValues (scope : VariableScope) : Option Variables :=
  coercedValues (document.scopeDefinitions schema scope) supplied

/-- The outlines of the operations, each with the values of its scope. -/
def parts : List Outline :=
  document.operationsInOrder.flatMap fun op =>
    document.operationOutlines schema (document.scopeValues schema supplied (some op.2.position)) op.2

end Document

namespace Pass

variable {top : NodeId} {rest : List NodeId} {w : Walk Pass}

/-- An operation has its scope coerced where that was not before and it needs its values. -/
theorem isSome_coerced_operation (a : Analyzer) (name : Option String) (op : Operation) (w : Walk Pass) :
    (((visitor a).operation w (name, op)).state.coerced.get? (some op.position)).isSome =
      ((w.state.coerced.get? (some op.position)).isSome || op.needsValues w.place.schema) := by
  obtain ⟨-, -, hkeys, -⟩ := operation_settled a name op w
  have hbefore := w.state.coerced.contains_iff_mem_keys (some op.position)
  have hafter := ((visitor a).operation w (name, op)).state.coerced.contains_iff_mem_keys (some op.position)
  unfold Operation.needsValues
  rw [hkeys] at hafter
  show Table.contains _ _ = (Table.contains _ _ || _)
  rw [Bool.eq_iff_iff, hafter]
  cases Selection.needsValuesAll w.place.schema (w.place.schema.root? op.kind) op.selections <;>
    cases hseen : w.state.coerced.contains (some op.position) <;> simp [← hbefore, hseen]

/-- What an operation leaves in the scopes: those coerced stay, and its own is coerced where
    it needs it. -/
theorem operation_scoped (a : Analyzer) (name : Option String) (op : Operation)
    (hframes : w.state.frames = top :: rest) (position : Position) :
    ((visitor a).operation w (name, op)).state.coerced.get? (some position) =
      (w.state.coerced.get? (some position)).or
        (if op.position = position && op.needsValues w.place.schema then
          some (coercedValues op.variableDefinitions w.place.supplied) else none) := by
  obtain ⟨hbetween, -, helsewhere, hvalues⟩ := operation_walked a name op hframes
  by_cases hposition : op.position = position
  · subst hposition
    have hsome := isSome_coerced_operation a name op w
    rw [operationValues_eq, operationValues_eq, hbetween.place] at hvalues
    generalize ((visitor a).operation w (name, op)).state.coerced.get? (some op.position) = after at hsome hvalues
    cases hbefore : w.state.coerced.get? (some op.position) <;> rw [hbefore] at hsome hvalues <;>
      cases hneeds : op.needsValues w.place.schema <;> cases after <;> simp_all
  · rw [helsewhere _ fun e => hposition (Option.some.inj e).symm]
    simp [hposition]

/-- What operations leave in the scopes: those coerced stay, and the others are those of the
    first in need. -/
theorem operations_scoped (a : Analyzer) (ops : List (Option String × Operation)) {w : Walk Pass}
    (hframes : w.state.frames = top :: rest) (position : Position) :
    (ops.foldl (visitor a).operation w).state.coerced.get? (some position) =
      (w.state.coerced.get? (some position)).or
        ((firstInNeed w.place.schema position ops).map fun op =>
          coercedValues op.variableDefinitions w.place.supplied) := by
  induction ops generalizing w with
  | nil => simp [firstInNeed]
  | cons entry others ih =>
    obtain ⟨name, op⟩ := entry
    obtain ⟨hbetween, -⟩ := operation_walked a name op hframes
    rw [List.foldl_cons, ih (hbetween.frames.trans hframes), operation_scoped a name op hframes, hbetween.place,
      Option.or_assoc, firstInNeed_cons]
    cases op.position = position && op.needsValues w.place.schema <;> rfl

/-- Operations graft their outlines, each with the values its scope has in the end. -/
theorem operations_grafted (a : Analyzer) (ops : List (Option String × Operation)) {w : Walk Pass}
    (hframes : w.state.frames = top :: rest) {values : Position → Option Variables}
    (hvalues : ∀ position v, (ops.foldl (visitor a).operation w).state.coerced.get? (some position) = some v →
      values position = v) :
    (ops.foldl (visitor a).operation w).state.tree = CostTree.graftAll top
      (ops.flatMap fun op => w.place.document.operationOutlines w.place.schema (values op.2.position) op.2)
      w.state.tree := by
  induction ops generalizing w with
  | nil => rfl
  | cons entry others ih =>
    obtain ⟨name, op⟩ := entry
    obtain ⟨hbetween, htree, -⟩ := operation_walked a name op hframes
    have hframes' := hbetween.frames.trans hframes
    have hown : w.place.document.operationOutlines w.place.schema (operationValues w op) op =
        w.place.document.operationOutlines w.place.schema (values op.position) op := by
      cases hneeds : op.needsValues w.place.schema with
      | false => exact Selection.outlinesAll_of_needsNone _ _ hneeds
      | true =>
        -- the scope is coerced behind the operation, and later ones leave it
        have hscoped := operation_scoped a name op hframes op.position
        have hfinal := operations_scoped a others hframes' op.position
        rw [hscoped] at hfinal
        rw [operationValues_eq, hvalues op.position _ ?_]
        rw [List.foldl_cons, hfinal, hneeds]
        cases w.state.coerced.get? (some op.position) <;> simp
    rw [List.foldl_cons, ih hframes' hvalues, htree, hown, hbetween.place, List.flatMap_cons, CostTree.graftAll_append]

/-- The scopes that operations have coerced have the values the document says. -/
theorem coerced_operated (a : Analyzer) {schema : Schema} {document : Document} {supplied : Variables}
    {position : Position} {values : Option Variables}
    (h : (operated a schema document supplied).state.coerced.get? (some position) = some values) :
    document.scopeValues schema supplied (some position) = values := by
  rw [operated, operations_scoped a document.operationsInOrder rfl] at h
  obtain ⟨op, hfirst, hop⟩ := Option.map_eq_some_iff.mp h
  have hfirst' : firstInNeed schema position document.operationsInOrder = some op := hfirst
  simp only [Document.scopeValues, Document.scopeDefinitions, hfirst']
  exact hop

/-- The tree of a pass is that of the outlines of its operations, each with the values of its
    scope, and the bodies of its fragments. -/
theorem built_scoped (a : Analyzer) (schema : Schema) (document : Document) (supplied : Variables) :
    BuiltFrom schema document supplied (document.parts schema supplied) (built a schema document supplied) :=
  definitions_walked a schema document supplied
    (operations_grafted a document.operationsInOrder rfl fun _ _ => coerced_operated a)

/-- A scope that a pass has coerced has the values the document says, none where that failed. -/
theorem coerced_built (a : Analyzer) (schema : Schema) (document : Document) (supplied : Variables)
    {k : VariableScope} {values : Option Variables}
    (h : (built a schema document supplied).coerced.get? k = some values) :
    document.scopeValues schema supplied k = values := by
  obtain ⟨hbetween, -, helsewhere, hvalues⟩ :=
    fragments_walked a document.fragmentsInOrder (operated a schema document supplied)
  rw [scope_operated] at helsewhere
  rw [place_operated, values_operated] at hvalues
  rw [built, definitions_eq] at h
  cases k with
  | some position =>
    rw [helsewhere (some position) (Option.some_ne_none position)] at h
    exact coerced_operated a h
  | none =>
    have hscope := (scope_of_operations hbetween.operations).trans (scope_operated a schema document supplied)
    rw [valuesSeen, hscope, h] at hvalues
    exact hvalues.symm

end Pass

/-! ## What is reported about shared scopes -/

/-- The positions of the operations in need, each where it comes first. -/
def positionsInNeed (schema : Schema) (ops : List (Option String × Operation)) : List Position :=
  ((ops.filter (·.2.needsValues schema)).map (·.2.position)).eraseDups

/-- The variables of the first operation in need at the position. -/
def definitionsInNeed (schema : Schema) (ops : List (Option String × Operation)) (position : Position) :
    List VariableDefinition :=
  ((firstInNeed schema position ops).map (·.variableDefinitions)).getD []

section

variable {schema : Schema} {ops : List (Option String × Operation)} {position : Position}

theorem firstInNeed_concat (schema : Schema) (position : Position) (ops : List (Option String × Operation))
    (entry : Option String × Operation) :
    firstInNeed schema position (ops ++ [entry]) =
      (firstInNeed schema position ops).or
        (if entry.2.position = position && entry.2.needsValues schema then some entry.2 else none) := by
  rw [firstInNeed, List.map_append, List.find?_append]
  exact congrArg _ (firstInNeed_cons schema position entry [])

theorem mem_positionsInNeed : position ∈ positionsInNeed schema ops ↔ (firstInNeed schema position ops).isSome := by
  rw [positionsInNeed, List.mem_eraseDups, firstInNeed, List.find?_isSome]
  simp only [List.mem_map, List.mem_filter, Bool.and_eq_true, decide_eq_true_eq]
  constructor
  · rintro ⟨entry, ⟨hentry, hneeds⟩, hposition⟩
    exact ⟨entry.2, ⟨entry, hentry, rfl⟩, hposition, hneeds⟩
  · rintro ⟨_, ⟨entry, hentry, rfl⟩, hposition, hneeds⟩
    exact ⟨entry, ⟨hentry, hneeds⟩, hposition⟩

theorem positionsInNeed_concat (schema : Schema) (ops : List (Option String × Operation))
    (entry : Option String × Operation) :
    positionsInNeed schema (ops ++ [entry]) =
      if entry.2.needsValues schema && !decide (entry.2.position ∈ positionsInNeed schema ops) then
        positionsInNeed schema ops ++ [entry.2.position]
      else positionsInNeed schema ops := by
  simp only [positionsInNeed, List.filter_append, List.map_append, List.mem_eraseDups]
  generalize (ops.filter (·.2.needsValues schema)).map (·.2.position) = positions
  cases hneeds : entry.2.needsValues schema with
  | false => simp [hneeds]
  | true =>
    rw [List.filter_singleton, hneeds, cond_true, List.map_singleton, eraseDups_concat]
    by_cases hold : entry.2.position ∈ positions <;> simp [hold]

/-- One more operation leaves the variables of the positions in need as they are. -/
theorem definitionsInNeed_concat_of_mem (h : position ∈ positionsInNeed schema ops)
    (entry : Option String × Operation) :
    definitionsInNeed schema (ops ++ [entry]) position = definitionsInNeed schema ops position := by
  obtain ⟨op, hop⟩ := Option.isSome_iff_exists.mp (mem_positionsInNeed.mp h)
  rw [definitionsInNeed, firstInNeed_concat, hop, Option.some_or, definitionsInNeed, hop]

/-- An operation in need at another position has its own variables there. -/
theorem definitionsInNeed_concat_of_new {entry : Option String × Operation} (hneeds : entry.2.needsValues schema = true)
    (hnew : entry.2.position ∉ positionsInNeed schema ops) :
    definitionsInNeed schema (ops ++ [entry]) entry.2.position = entry.2.variableDefinitions := by
  rw [mem_positionsInNeed, Option.not_isSome_iff_eq_none] at hnew
  rw [definitionsInNeed, firstInNeed_concat, hnew, Option.none_or]
  simp [hneeds]

end

namespace Document

theorem scopeDefinitions_eq (document : Document) (schema : Schema) (position : Position) :
    document.scopeDefinitions schema (some position) = definitionsInNeed schema document.operationsInOrder position := by
  simp only [scopeDefinitions, definitionsInNeed]
  cases firstInNeed schema position document.operationsInOrder <;> rfl

/-- The scopes that are coerced, in this order: those of the operations in need, and behind them
    that of the fragments where one of these needs it. -/
def neededScopes (document : Document) (schema : Schema) : List VariableScope :=
  (positionsInNeed schema document.operationsInOrder).map some ++
    if document.fragmentsNeedValues schema then [none] else []

end Document

namespace Pass

/-- Operations have the scopes coerced that are in need, with the variables of the first there,
    and report what is wrong with these. -/
theorem operations_coerced (a : Analyzer) (ops : List (Option String × Operation)) {w : Walk Pass}
    (hnone : w.state.coerced.keys = []) :
    (ops.foldl (visitor a).operation w).place = w.place ∧
      (ops.foldl (visitor a).operation w).state.coerced.keys = (positionsInNeed w.place.schema ops).map some ∧
      (ops.foldl (visitor a).operation w).state.errors =
        ((positionsInNeed w.place.schema ops).flatMap fun position =>
          coercionErrors (definitionsInNeed w.place.schema ops position) w.place.supplied).foldl addNew w.state.errors := by
  induction ops using List.reverseRecOn with
  | nil => exact ⟨rfl, hnone, rfl⟩
  | append_singleton ops entry ih =>
    obtain ⟨name, op⟩ := entry
    obtain ⟨hplace, hkeys, herrors⟩ := ih
    obtain ⟨hplace', -, hkeys', herrors'⟩ := operation_settled a name op (ops.foldl (visitor a).operation w)
    have hcontains : (ops.foldl (visitor a).operation w).state.coerced.contains (some op.position) =
        decide (op.position ∈ positionsInNeed w.place.schema ops) := by
      rw [Bool.eq_iff_iff, Table.contains_iff_mem_keys, hkeys, decide_eq_true_eq]
      exact List.mem_map_of_injective (Option.some_injective _)
    have hold : ((positionsInNeed w.place.schema ops).flatMap fun position =>
        coercionErrors (definitionsInNeed w.place.schema (ops ++ [(name, op)]) position) w.place.supplied) =
          (positionsInNeed w.place.schema ops).flatMap fun position =>
            coercionErrors (definitionsInNeed w.place.schema ops position) w.place.supplied :=
      List.flatMap_congr fun position hposition => by rw [definitionsInNeed_concat_of_mem hposition]
    have hneeds : Selection.needsValuesAll w.place.schema (w.place.schema.root? op.kind) op.selections =
        op.needsValues w.place.schema := rfl
    rw [hplace, hcontains, hneeds, hkeys] at hkeys'
    rw [hplace, hcontains, hneeds, herrors] at herrors'
    rw [List.foldl_concat, hkeys', herrors', positionsInNeed_concat]
    refine ⟨hplace'.trans hplace, ?_, ?_⟩
    · split
      · rw [List.map_append, List.map_singleton]
      · rfl
    · split
      · rename_i hnew
        obtain ⟨hneeds, hnew⟩ := Bool.and_eq_true_iff.mp hnew
        rw [List.flatMap_append, hold, List.flatMap_singleton, List.foldl_append]
        rw [definitionsInNeed_concat_of_new hneeds (by simpa using hnew)]
      · rw [hold]

/-- A pass coerces the scopes that are in need, and reports what is wrong with their variables,
    each error where it comes first. -/
theorem built_coerced (a : Analyzer) (schema : Schema) (document : Document) (supplied : Variables) :
    (built a schema document supplied).coerced.keys = document.neededScopes schema ∧
      (built a schema document supplied).errors =
        ((document.neededScopes schema).flatMap fun scope =>
          coercionErrors (document.scopeDefinitions schema scope) supplied).foldl addNew [] := by
  obtain ⟨-, hkeys, herrors⟩ := operations_coerced a document.operationsInOrder (w := entered schema document supplied) rfl
  have hkeys : (operated a schema document supplied).state.coerced.keys = _ := hkeys
  have herrors : (operated a schema document supplied).state.errors = _ := herrors
  have hcoerced : (operated a schema document supplied).state.isCoerced = false := by
    rw [Bool.eq_false_iff, ne_eq, isCoerced_iff, scope_operated, hkeys]
    simp
  have hfragments := fragments_settled a document.fragmentsInOrder (operated a schema document supplied)
  have hfragmentKeys := hfragments.keys
  have hfragmentErrors := hfragments.errors
  rw [place_operated, hcoerced, Bool.not_false, Bool.and_true] at hfragmentKeys hfragmentErrors
  rw [hkeys, scope_operated] at hfragmentKeys
  rw [herrors, scopeDefinitions_operated, ← List.foldl_append] at hfragmentErrors
  rw [built, definitions_eq, hfragmentKeys, hfragmentErrors]
  simp only [Document.neededScopes, List.flatMap_append, List.flatMap_map, Document.scopeDefinitions_eq]
  unfold Document.fragmentsNeedValues
  split
  · exact ⟨rfl, by rw [List.flatMap_singleton]; rfl⟩
  · simp only [List.append_nil, List.flatMap_nil]
    exact ⟨rfl, rfl⟩

end Pass

/-- The operations are at one place and define the same variables, and need them or do not. -/
structure Operation.SameNeeds (schema : Schema) (op op' : Operation) : Prop where
  position : op'.position = op.position
  variableDefinitions : op'.variableDefinitions = op.variableDefinitions
  needsValues : op'.needsValues schema = op.needsValues schema

section

variable {schema : Schema} {ops ops' : List (Option String × Operation)}
  (h : List.Forall₂ (fun entry entry' => entry.2.SameNeeds schema entry'.2) ops ops')
include h

theorem positionsInNeed_congr : positionsInNeed schema ops' = positionsInNeed schema ops := by
  refine congrArg List.eraseDups ?_
  induction h with
  | nil => rfl
  | cons hentry _ ih =>
    rw [List.filter_cons, List.filter_cons, hentry.needsValues]
    split
    · rw [List.map_cons, List.map_cons, hentry.position, ih]
    · exact ih

theorem definitionsInNeed_congr (position : Position) :
    definitionsInNeed schema ops' position = definitionsInNeed schema ops position := by
  refine congrArg (Option.getD · []) ?_
  induction h with
  | nil => rfl
  | cons hentry _ ih =>
    rw [firstInNeed_cons, firstInNeed_cons, hentry.position, hentry.needsValues]
    split
    · simp only [Option.map_some, hentry.variableDefinitions]
    · exact ih

end

section

variable {schema : Schema} {document document' : Document}
  (hoperations : List.Forall₂ (fun entry entry' => entry.2.SameNeeds schema entry'.2) document.operationsInOrder
    document'.operationsInOrder)
  (hdefinitions : document'.fragmentScopeDefinitions = document.fragmentScopeDefinitions)
include hoperations hdefinitions

theorem Document.scopeDefinitions_congr (scope : VariableScope) :
    document'.scopeDefinitions schema scope = document.scopeDefinitions schema scope := by
  cases scope with
  | none => exact hdefinitions
  | some position => rw [scopeDefinitions_eq, scopeDefinitions_eq, definitionsInNeed_congr hoperations]

/-- What a pass reports about variables is decided by the place, the variables and the needs
    of its operations and by whether some fragment needs them. -/
theorem Pass.built_errors_congr (hfragments : document'.fragmentsNeedValues schema = document.fragmentsNeedValues schema)
    (a : Analyzer) (supplied : Variables) :
    (built a schema document' supplied).errors = (built a schema document supplied).errors := by
  have hneeded : document'.neededScopes schema = document.neededScopes schema := by
    rw [Document.neededScopes, Document.neededScopes, positionsInNeed_congr hoperations, hfragments]
  rw [(built_coerced a schema document' supplied).2, (built_coerced a schema document supplied).2, hneeded]
  simp only [Document.scopeDefinitions_congr hoperations hdefinitions]

end

/-! ## Operations with the same variables -/

namespace Document

variable {document : Document} {schema : Schema} {supplied : Variables} {op : Operation}

theorem operationsInOrder_perm (document : Document) :
    (document.operationsInOrder.map Prod.snd).Perm document.operations.values := by
  have hperm : document.operationsInOrder.Perm document.operations.entries := sortByPosition_perm _ _
  exact hperm.map Prod.snd

/-- Operations at one position define the same variables. -/
def ScopesAgree (document : Document) : Prop :=
  ∀ op ∈ document.operations.values, ∀ op' ∈ document.operations.values,
    op.position = op'.position → op.variableDefinitions = op'.variableDefinitions

/-- Operations at distinct positions do not share a scope at all. -/
theorem scopesAgree_of_nodup (h : (document.operations.values.map (·.position)).Nodup) : document.ScopesAgree := by
  intro op hop op' hop' hposition
  rw [List.inj_on_of_nodup_map h hop hop' hposition]

/-- Where operations at one position define the same variables, one that needs them has its
    own in its scope. -/
theorem scopeDefinitions_of_agree (hagree : document.ScopesAgree) (hop : op ∈ document.operations.values)
    (hneeds : op.needsValues schema = true) :
    document.scopeDefinitions schema (some op.position) = op.variableDefinitions := by
  have hperm := document.operationsInOrder_perm
  have hmem : op ∈ document.operationsInOrder.map Prod.snd := hperm.mem_iff.mpr hop
  cases hfirst : firstInNeed schema op.position document.operationsInOrder with
  | none =>
    have hnone := List.find?_eq_none.mp hfirst op hmem
    simp [hneeds] at hnone
  | some first =>
    have hfound := List.find?_some hfirst
    rw [Bool.and_eq_true, decide_eq_true_eq] at hfound
    have hfirst' : first ∈ document.operations.values := hperm.mem_iff.mp (List.mem_of_find?_eq_some hfirst)
    simp only [scopeDefinitions, hfirst, hagree first hfirst' op hop hfound.1]

theorem scopeValues_of_agree (hagree : document.ScopesAgree) (hop : op ∈ document.operations.values)
    (hneeds : op.needsValues schema = true) :
    document.scopeValues schema supplied (some op.position) = coercedValues op.variableDefinitions supplied := by
  rw [scopeValues, scopeDefinitions_of_agree hagree hop hneeds]

/-- There an operation has the outlines it has with the values of its own variables. -/
theorem operationOutlines_of_agree (hagree : document.ScopesAgree) (hop : op ∈ document.operations.values) :
    document.operationOutlines schema (document.scopeValues schema supplied (some op.position)) op =
      document.operationOutlines schema (coercedValues op.variableDefinitions supplied) op := by
  cases hneeds : op.needsValues schema with
  | false => exact Selection.outlinesAll_of_needsNone _ _ hneeds
  | true => rw [scopeValues_of_agree hagree hop hneeds]

end Document

/-! ## Operations at distinct positions -/

theorem flatMap_filter {α β : Type} (p : α → Bool) (f : α → List β) (l : List α) :
    (l.filter p).flatMap f = l.flatMap fun x => if p x then f x else [] := by
  induction l with
  | nil => rfl
  | cons x rest ih => cases h : p x <;> simp [h, ih]

theorem nodup_operationsInOrder {document : Document} (hpositions : (document.operations.values.map (·.position)).Nodup) :
    (document.operationsInOrder.map (·.2.position)).Nodup := by
  have hperm := sortByPosition_perm (·.2.position) document.operations.entries
  apply (hperm.map (·.2.position)).nodup_iff.mpr
  rwa [Table.values, List.map_map] at hpositions

/-- Where operations have distinct positions, a pass coerces the scopes that need their
    variables, in the order of the scopes, and reports their errors, each where it comes
    first. -/
theorem Pass.built_settled (a : Analyzer) (schema : Schema) {document : Document} (supplied : Variables)
    (hpositions : (document.operations.values.map (·.position)).Nodup) :
    (built a schema document supplied).coerced.keys =
        ((document.operationsInOrder.filter fun op =>
          Selection.needsValuesAll schema (schema.root? op.2.kind) op.2.selections).map (some ·.2.position)) ++
          (if document.fragmentsNeedValues schema then [none] else []) ∧
      (built a schema document supplied).errors = (document.scopeErrors schema supplied).foldl addNew [] := by
  have hneeded : positionsInNeed schema document.operationsInOrder =
      (document.operationsInOrder.filter (·.2.needsValues schema)).map (·.2.position) :=
    eraseDups_of_nodup ((nodup_operationsInOrder hpositions).sublist (List.filter_sublist.map _))
  have hown : ((document.operationsInOrder.filter (·.2.needsValues schema)).flatMap fun entry =>
      coercionErrors (document.scopeDefinitions schema (some entry.2.position)) supplied) =
        document.operationsInOrder.flatMap fun entry => Document.operationErrors schema supplied entry.2 := by
    rw [flatMap_filter]
    refine List.flatMap_congr fun entry hentry => ?_
    have hop : entry.2 ∈ document.operations.values :=
      document.operationsInOrder_perm.mem_iff.mp (List.mem_map_of_mem hentry)
    unfold Document.operationErrors
    split
    · rename_i hneeds
      rw [Document.scopeDefinitions_of_agree (Document.scopesAgree_of_nodup hpositions) hop hneeds]
      exact (if_pos hneeds).symm
    · rename_i hneeds
      exact (if_neg hneeds).symm
  obtain ⟨hkeys, herrors⟩ := built_coerced a schema document supplied
  rw [hkeys, herrors, Document.neededScopes, hneeded, List.map_map, Document.scopeErrors, List.flatMap_append,
    List.flatMap_map]
  refine ⟨rfl, congrArg (List.foldl addNew []) (congrArg₂ (· ++ ·) hown ?_)⟩
  split
  · exact List.flatMap_singleton ..
  · rfl

theorem Pass.built_errors (a : Analyzer) (schema : Schema) {document : Document} (supplied : Variables)
    (hpositions : (document.operations.values.map (·.position)).Nodup) :
    (built a schema document supplied).errors = (document.scopeErrors schema supplied).foldl addNew [] :=
  (built_settled a schema supplied hpositions).2

end QueryCost
