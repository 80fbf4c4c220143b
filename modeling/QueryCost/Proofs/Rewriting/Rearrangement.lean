/-
  QueryCost.Proofs.Rewriting.Rearrangement — the order of selections and arguments is of no
  consequence.

  A document is rearranged when selections change places inside the set they stand in, at any
  depth, and arguments inside their field (`Selection.Rearranged`). Costs are sums, and the
  sizes of a list are added up, so neither depends on an order. The variables of a scope are
  coerced for another field first, but they are the same variables, and whether any field
  needs them does not depend on the order either.

  - `rearrangement_published`: a pass over the rearranged document publishes the same, reports
    the same errors about variables in the same order, and exceeds the limit or finds a cycle
    where the other does.
-/

import QueryCost.Proofs.Pass.Outcome
import QueryCost.Proofs.Pass.VariableErrors
import QueryCost.Proofs.Rewriting.Alike

namespace QueryCost

/-- Selections change places, and arguments inside fields, anywhere. -/
inductive Selection.Rearranged : List Selection → List Selection → Prop
  | nil : Rearranged [] []
  | field (f : Field) {arguments : List (String × Value String)} {below below' rest rest' : List Selection} :
      f.arguments.Perm arguments → Rearranged below below' → Rearranged rest rest' →
      Rearranged (.field f below :: rest) (.field { f with arguments := arguments } below' :: rest')
  | inline (condition : Option String) (directives : List (Directive String))
      {below below' rest rest' : List Selection} : Rearranged below below' → Rearranged rest rest' →
      Rearranged (.inline condition directives below :: rest) (.inline condition directives below' :: rest')
  | spread (f : String) (directives : List (Directive String)) {rest rest' : List Selection} :
      Rearranged rest rest' → Rearranged (.spread f directives :: rest) (.spread f directives :: rest')
  | swap (s t : Selection) (rest : List Selection) : Rearranged (s :: t :: rest) (t :: s :: rest)
  | trans {selections selections' selections'' : List Selection} : Rearranged selections selections' →
      Rearranged selections' selections'' → Rearranged selections selections''

namespace Selection.Rearranged

theorem refl : ∀ selections, Rearranged selections selections
  | [] => .nil
  | .field f below :: rest => .field f (.refl _) (refl below) (refl rest)
  | .inline condition directives below :: rest => .inline condition directives (refl below) (refl rest)
  | .spread f directives :: rest => .spread f directives (refl rest)

/-- Any order of the selections of a set is a rearrangement. -/
theorem of_perm {selections selections' : List Selection} (h : selections.Perm selections') :
    Rearranged selections selections' := by
  induction h with
  | nil => exact .nil
  | cons s _ ih =>
    cases s with
    | field f below => exact .field f (.refl _) (refl below) ih
    | inline condition directives below => exact .inline condition directives (refl below) ih
    | spread f directives => exact .spread f directives ih
  | swap s t rest => exact .swap t s rest
  | trans _ _ ih ih' => exact ih.trans ih'

end Selection.Rearranged

/-! ## Fields -/

/-- The same role, with the sizes in another order. -/
inductive FieldRole.Rearranged : FieldRole → FieldRole → Prop
  | nothing : Rearranged .nothing .nothing
  | passing : Rearranged .passing .passing
  | counted (cost : Option DeclaredCost) (landing : Size) {sizes sizes' : List Size} : sizes.Perm sizes' →
      Rearranged (.counted cost landing sizes) (.counted cost landing sizes')

theorem sizes_perm {f : Field} {arguments : List (String × Value String)} (h : f.arguments.Perm arguments)
    (entry : FieldEntry) (names : NameSet) (values : Variables) :
    (Pass.sizes f entry names values).Perm (Pass.sizes { f with arguments := arguments } entry names values) :=
  (h.filter _).filterMap _

theorem fieldRole_rearranged {f : Field} {arguments : List (String × Value String)} (h : f.arguments.Perm arguments)
    (schema : Schema) (values : Option Variables) (parent : Option TypeEntry) :
    (fieldRole schema values parent f).Rearranged
      (fieldRole schema values parent { f with arguments := arguments }) := by
  unfold fieldRole
  simp only
  split
  · exact .nothing
  · cases parent with
    | none => exact .nothing
    | some t =>
      simp only
      split
      · exact .passing
      · cases t.field? f.name with
        | none => exact .nothing
        | some entry =>
          simp only [listSizes]
          cases (schema.fieldCost t f.name).bind (·.sizeArguments?) with
          | none => exact .counted _ _ (.refl _)
          | some names =>
            cases values with
            | none => exact .nothing
            | some values => exact .counted _ _ (sizes_perm h entry names values)

theorem fieldCharge_perm (defaultComplexity : Size) (cost : Option DeclaredCost) (landing : Size)
    {sizes sizes' : List Size} (h : sizes.Perm sizes') :
    fieldCharge defaultComplexity cost landing sizes = fieldCharge defaultComplexity cost landing sizes' := by
  unfold fieldCharge
  rw [h.sum_eq, h.isEmpty_eq]

/-! ## Costs -/

section

variable {schema : Schema} {defaultComplexity : Size} {values : Option Variables} {spread : String → Option Size}
  {selections selections' : List Selection}

theorem Selection.cost_rearranged {f : Field} {arguments : List (String × Value String)}
    (harguments : f.arguments.Perm arguments) {below below' : List Selection}
    (hbelow : ∀ parent, costAll schema defaultComplexity values spread parent below =
      costAll schema defaultComplexity values spread parent below') (parent : Option TypeEntry) :
    (Selection.field f below).cost schema defaultComplexity values spread parent =
      (Selection.field { f with arguments := arguments } below').cost schema defaultComplexity values spread parent := by
  have hrole := fieldRole_rearranged harguments schema values parent
  simp only [cost, hbelow]
  generalize fieldRole schema values parent f = role,
    fieldRole schema values parent { f with arguments := arguments } = role' at hrole
  cases hrole with
  | nothing => rfl
  | passing => rfl
  | counted cost landing hsizes => simp only [fieldCharge_perm defaultComplexity cost landing hsizes]

theorem Selection.Rearranged.costAll_eq (h : Rearranged selections selections') (parent : Option TypeEntry) :
    costAll schema defaultComplexity values spread parent selections =
      costAll schema defaultComplexity values spread parent selections' := by
  have hP := costRelation_eq defaultComplexity
  induction h generalizing parent with
  | nil => rfl
  | field f harguments _ _ ihbelow ihrest => exact hP.cons (cost_rearranged harguments ihbelow parent) (ihrest parent)
  | inline condition _ _ _ ihbelow ihrest =>
    exact hP.cons (CostRelation.inline parent condition ihbelow) (ihrest parent)
  | spread f _ _ ihrest => exact hP.cons (rfl : spread f = spread f) (ihrest parent)
  | swap s t rest =>
    simp only [costAll_cons]
    exact Option.map₂_left_comm add_left_comm
  | trans _ _ ih ih' => rw [ih, ih']

/-! ## Variables -/

theorem Selection.needsValues_rearranged {f : Field} {arguments : List (String × Value String)}
    (harguments : f.arguments.Perm arguments) {below below' : List Selection}
    (hbelow : ∀ parent, needsValuesAll schema parent below = needsValuesAll schema parent below')
    (parent : Option TypeEntry) :
    (Selection.field f below).needsValues schema parent =
      (Selection.field { f with arguments := arguments } below').needsValues schema parent := by
  have hrole := fieldRole_rearranged harguments schema (some ∅) parent
  simp only [needsValues, hbelow]
  generalize fieldRole schema (some ∅) parent f = role,
    fieldRole schema (some ∅) parent { f with arguments := arguments } = role' at hrole
  cases hrole <;> rfl

theorem Selection.Rearranged.needsValuesAll_eq (h : Rearranged selections selections') (parent : Option TypeEntry) :
    needsValuesAll schema parent selections = needsValuesAll schema parent selections' := by
  induction h generalizing parent with
  | nil => rfl
  | field f harguments _ _ ihbelow ihrest =>
    rw [needsValuesAll, needsValuesAll, needsValues_rearranged harguments ihbelow, ihrest]
  | inline condition _ _ _ ihbelow ihrest =>
    rw [needsValuesAll, needsValuesAll, ihrest]
    cases condition with
    | none => simp only [needsValues, ihbelow]
    | some t => simp only [needsValues, ihbelow]
  | spread f _ _ ihrest =>
    rw [needsValuesAll, needsValuesAll, ihrest]
  | swap s t rest =>
    simp only [needsValuesAll]
    exact Bool.or_left_comm _ _ _
  | trans _ _ ih ih' => rw [ih, ih']

end

namespace Document

variable {document document' : Document} {schema : Schema} {defaultComplexity : Size} {supplied : Variables}

theorem spreadCost_rearranged (h : document.Alike Selection.Rearranged document') (depth : Nat) :
    document.spreadCost schema defaultComplexity supplied depth =
      document'.spreadCost schema defaultComplexity supplied depth := by
  have hP := costRelation_eq defaultComplexity
  induction depth with
  | zero =>
    funext f
    exact spreadCost_related_zero hP rfl h f
  | succ depth ih =>
    funext f
    refine spreadCost_related_succ hP h (fun fragment selections hrearranged => ?_) f
    rw [ih]
    exact hrearranged.costAll_eq _

theorem cost_rearranged (h : document.Alike Selection.Rearranged document') (depth : Nat) :
    document.cost schema defaultComplexity supplied depth = document'.cost schema defaultComplexity supplied depth := by
  refine cost_related (costRelation_eq defaultComplexity) h fun op _ selections hrearranged => ?_
  rw [spreadCost_rearranged h]
  exact hrearranged.costAll_eq _

/-- The same scopes need their variables, so the same is wrong with them. -/
theorem scopeErrors_rearranged (h : document.Alike Selection.Rearranged document') :
    document.scopeErrors schema supplied = document'.scopeErrors schema supplied := by
  have hoperations : document.operationsInOrder.map (fun op => operationErrors schema supplied op.2) =
      document'.operationsInOrder.map fun op => operationErrors schema supplied op.2 := by
    refine (map_eq_of_forall₂ (fun op op' hop => ?_) h.operationsInOrder).symm
    have hneeds : Selection.needsValuesAll schema (schema.root? op.2.kind) op.2.selections =
        Selection.needsValuesAll schema (schema.root? op.2.kind) op'.2.selections :=
      hop.2.selections.needsValuesAll_eq _
    unfold operationErrors
    rw [hop.2.kind, hop.2.variableDefinitions, hneeds]
  have hfragments : document.fragmentsNeedValues schema = document'.fragmentsNeedValues schema := by
    let needs : String × Fragment → Bool :=
      fun f => Selection.needsValuesAll schema (schema.type? f.2.condition) f.2.selections
    have hneeds : document'.fragmentsInOrder.map needs = document.fragmentsInOrder.map needs := by
      refine map_eq_of_forall₂ (fun f f' hf => ?_) h.fragmentsInOrder
      simp only [needs, hf.2.condition, hf.2.selections.needsValuesAll_eq]
    have hany : ∀ fragments : List (String × Fragment), fragments.any needs = (fragments.map needs).any id := by
      intro fragments
      rw [List.any_map, Function.id_comp]
    show document.fragmentsInOrder.any needs = document'.fragmentsInOrder.any needs
    rw [hany, hany, hneeds]
  unfold scopeErrors
  rw [List.flatMap_def, List.flatMap_def, hoperations, hfragments, h.fragmentScopeDefinitions]

end Document

/-! ## What is published and reported -/

/-- Where operations have distinct positions, rearranging selections and arguments changes
    nothing about what a pass publishes and reports, but for which cycle is named. -/
theorem rearrangement_published (schema : Schema) {document document' : Document}
    (hpositions : (document.operations.values.map (·.position)).Nodup)
    (h : document.Alike Selection.Rearranged document') (e : Execution) :
    (validate schema document e).execution.complexity = (validate schema document' e).execution.complexity ∧
      (validate schema document e).execution.errors.filter (·.cause.isVariable) =
        (validate schema document' e).execution.errors.filter (·.cause.isVariable) ∧
      (validate schema document e).execution.errors.filter (·.cause.isLimit) =
        (validate schema document' e).execution.errors.filter (·.cause.isLimit) ∧
      ((∃ err ∈ (validate schema document e).execution.errors, err.cause.isCycle = true) ↔
        ∃ err ∈ (validate schema document' e).execution.errors, err.cause.isCycle = true) := by
  have hscopes := Document.scopesAgree_of_nodup hpositions
  have hpositions' : (document'.operations.values.map (·.position)).Nodup := by rwa [h.positions]
  have hsame : (validate schema document e).execution.complexity = (validate schema document' e).execution.complexity := by
    refine complexity_congr hscopes (h.scopesAgree hscopes) fun defaultComplexity total => ?_
    simp only [Document.cost_rearranged h]
  refine ⟨hsame, ?_⟩
  cases ha : schema.analyzer with
  | none =>
    rw [validate_of_no_analyzer ha, validate_of_no_analyzer ha]
    exact ⟨rfl, rfl, .rfl⟩
  | some a =>
    have hended := validate_ended ha document e
    have hended' := validate_ended ha document' e
    have hvariable := Pass.isVariable_of_built a schema document e.supplied
    have hvariable' := Pass.isVariable_of_built a schema document' e.supplied
    have herrors : (Pass.built a schema document e.supplied).errors = (Pass.built a schema document' e.supplied).errors := by
      rw [Pass.built_errors a schema e.supplied hpositions, Pass.built_errors a schema e.supplied hpositions',
        Document.scopeErrors_rearranged h]
    refine ⟨?_, ?_, ?_⟩
    · rw [hended.filter_isVariable hvariable, hended'.filter_isVariable hvariable', herrors]
    · rw [hended.filter_isLimit hvariable, hended'.filter_isLimit hvariable', hsame]
    · rw [hended.exists_cycle_iff hvariable, hended'.exists_cycle_iff hvariable', hsame]

/-- Items of two sizes, before the first page of them. -/
def shelf : Document where
  operations := .ofPairs [(none, ⟨⟨1, 1⟩, .query, [⟨⟨1, 7⟩, "n", .named "Int" false, none, []⟩], [],
    [.field ⟨none, "items", [("first", .var "n"), ("first", .number (.ofSize 2))], []⟩
      [.field ⟨none, "name", [], []⟩ [], .field ⟨none, "__typename", [], []⟩ []],
      .spread "Page" []]⟩)]
  fragments := .ofPairs [
    ("Page", ⟨⟨2, 1⟩, "Query", [], [.field ⟨none, "items", [("first", .number (.ofSize 1))], []⟩
      [.field ⟨none, "name", [], []⟩ []]]⟩)]

/-- The same, with the page first, the sizes the other way around and the name last. -/
def shelfRearranged : Document where
  operations := .ofPairs [(none, ⟨⟨1, 1⟩, .query, [⟨⟨1, 7⟩, "n", .named "Int" false, none, []⟩], [],
    [.spread "Page" [],
      .field ⟨none, "items", [("first", .number (.ofSize 2)), ("first", .var "n")], []⟩
        [.field ⟨none, "__typename", [], []⟩ [], .field ⟨none, "name", [], []⟩ []]]⟩)]
  fragments := shelf.fragments

/-- Five items and one, at 3 each, in either order. Without the variable either reports it
    once, though the page and the items both need it. -/
theorem rearrangement_published_shelf :
    (shelf.operations.values.map (·.position)).Nodup ∧ shelf.Alike Selection.Rearranged shelfRearranged ∧
      (validate shop shelfRearranged three).execution.complexity = some ⟨18, 10⟩ ∧
      (validate shop shelfRearranged (.ofVariables ∅)).execution.errors.filter (·.cause.isVariable) =
        [⟨.missingVariable "n" (.named "Int" false), [⟨1, 7⟩]⟩] := by
  have hpositions : (shelf.operations.values.map (·.position)).Nodup := by decide +kernel
  have halike : shelf.Alike Selection.Rearranged shelfRearranged := by
    refine ⟨.cons ⟨rfl, rfl, rfl, rfl, .trans (.swap _ _ _) ?_⟩ .nil, ?_⟩
    · exact .spread _ _ (.field _ (.swap _ _ _) (.of_perm (.swap _ _ _)) .nil)
    · exact List.forall₂_same.mpr fun entry _ => ⟨rfl, rfl, rfl, .refl _⟩
  have hpublished : (validate shop shelf three).execution.complexity = some ⟨18, 10⟩ := by decide +kernel
  have hreported : (validate shop shelf (.ofVariables ∅)).execution.errors.filter (·.cause.isVariable) =
      [⟨.missingVariable "n" (.named "Int" false), [⟨1, 7⟩]⟩] := by decide +kernel
  obtain ⟨hcomplexity, -⟩ := rearrangement_published shop hpositions halike three
  obtain ⟨-, herrors, -⟩ := rearrangement_published shop hpositions halike (.ofVariables ∅)
  exact ⟨hpositions, halike, hcomplexity ▸ hpublished, herrors ▸ hreported⟩

end QueryCost
