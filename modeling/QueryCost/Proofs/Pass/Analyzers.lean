/-
  QueryCost.Proofs.Pass.Analyzers — one schema with different analyzers.

  A pass is given its analyzer apart from the schema, and nothing on the way looks at the one
  the schema carries: not the types, nor the costs, nor the scopes of variables. So a pass
  builds the same tree and reports the same about variables, whatever analyzer that is.

  - `builtTree_withAnalyzer`, `built_errors_withAnalyzer`: the tree and the errors about
    variables.
  - `complexity_withAnalyzer_iff`: what is published with an analyzer is what the operations
    cost together, by the default complexity of the analyzer.
-/

import QueryCost.Proofs.Pass.Refinement

namespace QueryCost

variable {schema : Schema} {a : Analyzer} {document : Document}

/-! ## Selections -/

section

variable {values : Option Variables}

theorem fieldRole_withAnalyzer (parent : Option TypeEntry) (f : Field) :
    fieldRole (schema.withAnalyzer a) values parent f = fieldRole schema values parent f := rfl

theorem landing_withAnalyzer (parent : Option TypeEntry) (field : String) :
    (schema.withAnalyzer a).landing parent field = schema.landing parent field := rfl

mutual

theorem Selection.outlines_withAnalyzer (parent : Option TypeEntry) (s : Selection) :
    s.outlines document (schema.withAnalyzer a) values parent = s.outlines document schema values parent := by
  cases s with
  | field f below =>
    simp only [outlines, fieldRole_withAnalyzer, landing_withAnalyzer,
      outlinesAll_withAnalyzer (schema.landing parent f.name) below]
  | inline condition directives below =>
    cases condition with
    | none => exact outlinesAll_withAnalyzer parent below
    | some t => exact outlinesAll_withAnalyzer (schema.type? t) below
  | spread f directives => rfl

theorem Selection.outlinesAll_withAnalyzer (parent : Option TypeEntry) (selections : List Selection) :
    outlinesAll document (schema.withAnalyzer a) values parent selections =
      outlinesAll document schema values parent selections := by
  cases selections with
  | nil => rfl
  | cons s rest =>
    rw [outlinesAll, outlinesAll, outlines_withAnalyzer parent s, outlinesAll_withAnalyzer parent rest]

end

mutual

theorem Selection.needsValues_withAnalyzer (parent : Option TypeEntry) (s : Selection) :
    s.needsValues (schema.withAnalyzer a) parent = s.needsValues schema parent := by
  cases s with
  | field f below =>
    simp only [needsValues, fieldRole_withAnalyzer, landing_withAnalyzer,
      needsValuesAll_withAnalyzer (schema.landing parent f.name) below]
  | inline condition directives below =>
    cases condition with
    | none => exact needsValuesAll_withAnalyzer parent below
    | some t => exact needsValuesAll_withAnalyzer (schema.type? t) below
  | spread f directives => rfl

theorem Selection.needsValuesAll_withAnalyzer (parent : Option TypeEntry) (selections : List Selection) :
    needsValuesAll (schema.withAnalyzer a) parent selections = needsValuesAll schema parent selections := by
  cases selections with
  | nil => rfl
  | cons s rest =>
    rw [needsValuesAll, needsValuesAll, needsValues_withAnalyzer parent s, needsValuesAll_withAnalyzer parent rest]

end

end

/-! ## Scopes -/

theorem Operation.needsValues_withAnalyzer (op : Operation) :
    op.needsValues (schema.withAnalyzer a) = op.needsValues schema :=
  Selection.needsValuesAll_withAnalyzer _ _

theorem definitionsInNeed_withAnalyzer (ops : List (Option String × Operation)) (position : Position) :
    definitionsInNeed (schema.withAnalyzer a) ops position = definitionsInNeed schema ops position := by
  simp only [definitionsInNeed, firstInNeed, Operation.needsValues_withAnalyzer]

namespace Document

theorem neededScopes_withAnalyzer : document.neededScopes (schema.withAnalyzer a) = document.neededScopes schema := by
  have hfragments : document.fragmentsNeedValues (schema.withAnalyzer a) = document.fragmentsNeedValues schema :=
    List.any_congr rfl fun f => Selection.needsValuesAll_withAnalyzer _ _
  simp only [neededScopes, positionsInNeed, Operation.needsValues_withAnalyzer, hfragments]

theorem scopeDefinitions_withAnalyzer (scope : VariableScope) :
    document.scopeDefinitions (schema.withAnalyzer a) scope = document.scopeDefinitions schema scope := by
  cases scope with
  | none => rfl
  | some position => rw [scopeDefinitions_eq, scopeDefinitions_eq, definitionsInNeed_withAnalyzer]

variable {supplied : Variables}

theorem parts_withAnalyzer :
    document.parts (schema.withAnalyzer a) supplied = document.parts schema supplied := by
  simp only [parts, operationOutlines, scopeValues, scopeDefinitions_withAnalyzer]
  exact List.flatMap_congr fun _ _ => Selection.outlinesAll_withAnalyzer _ _

theorem bodies_withAnalyzer :
    document.bodies (schema.withAnalyzer a) supplied = document.bodies schema supplied :=
  List.map_congr_left fun entry _ => congrArg (Prod.mk entry.1) (Selection.outlinesAll_withAnalyzer _ _)

end Document

/-! ## What is built and published -/

theorem Pass.builtTree_withAnalyzer (b : Analyzer) (supplied : Variables) :
    builtTree b (schema.withAnalyzer a) document supplied = builtTree b schema document supplied :=
  builtTree_congr b Document.parts_withAnalyzer Document.bodies_withAnalyzer

theorem Pass.built_errors_withAnalyzer (b : Analyzer) (supplied : Variables) :
    (built b (schema.withAnalyzer a) document supplied).errors = (built b schema document supplied).errors := by
  rw [(built_coerced b (schema.withAnalyzer a) document supplied).2, (built_coerced b schema document supplied).2,
    Document.neededScopes_withAnalyzer]
  simp only [Document.scopeDefinitions_withAnalyzer]

theorem complexity_withAnalyzer_iff {e : Execution} {c : Complexity} :
    (validate (schema.withAnalyzer a) document e).execution.complexity = some c ↔
      c.max = a.maxComplexity ∧
        ∃ depth, document.partsCost schema a.defaultComplexity e.supplied depth = some c.current := by
  rw [complexity_eq_parts_iff (a := a) rfl, ← builtTree_costs_iff, Pass.builtTree_withAnalyzer, builtTree_costs_iff]

end QueryCost
