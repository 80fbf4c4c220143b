/-
  QueryCost.Proofs.Pass.Refinement — a pass publishes the cost read off the selections.

  The tree of a pass has grown from the outlines of its operations, each with the values of
  its scope. So it costs what the operations cost together (`Document.partsCost`), and the
  fold finds that. Where operations at one position define the same variables, the values
  are those of the operation's own.

  - `complexity_eq_parts_iff`: what is published is what the operations cost together, and
    something is published exactly where they have a cost at some depth.
  - `complexity_eq_some_iff`: the same for what the document costs by the variables of each
    operation, where operations at one position define the same.
  - `complexity_of_builtTree`, `errors_of_builtTree`: passes that build the same tree publish
    and report the same.
  - `cost_published`: for an acyclic document whose operations have distinct positions a
    pass publishes its cost, at every depth there are fragments for.
-/

import QueryCost.Proofs.Pass.Report

namespace QueryCost

/-! ## Sums over operations -/

theorem sum_mapM_cons {α : Type} (f : α → Option Size) (x : α) (l : List α) :
    ((x :: l).mapM f).map List.sum = Option.map₂ (· + ·) (f x) ((l.mapM f).map List.sum) := by
  rw [List.mapM_cons]
  cases f x with
  | none => rfl
  | some v => cases l.mapM f <;> rfl

theorem sum_mapM_perm {α : Type} {f : α → Option Size} {l l' : List α} (h : l.Perm l') :
    (l.mapM f).map List.sum = (l'.mapM f).map List.sum := by
  induction h with
  | nil => rfl
  | cons x _ ih => rw [sum_mapM_cons, sum_mapM_cons, ih]
  | swap x y l =>
    simp only [sum_mapM_cons]
    exact Option.map₂_left_comm add_left_comm
  | trans _ _ ih ih' => exact ih.trans ih'

theorem Outline.costAll_flatMap {α : Type} {defaultComplexity : Size} {spread : String → Option Size}
    (outlines : α → List Outline) (l : List α) :
    costAll defaultComplexity spread (l.flatMap outlines) =
      (l.mapM fun x => costAll defaultComplexity spread (outlines x)).map List.sum := by
  induction l with
  | nil => rfl
  | cons x rest ih => rw [List.flatMap_cons, costAll_append, ih, sum_mapM_cons]

namespace Document

variable {document : Document} {schema : Schema} {supplied : Variables} {defaultComplexity : Size} {depth : Nat}

/-- What the operations cost together, each with the values of its scope. -/
def partsCost (document : Document) (schema : Schema) (defaultComplexity : Size) (supplied : Variables) (depth : Nat) :
    Option Size :=
  Outline.costAll defaultComplexity (document.spreadCost schema defaultComplexity supplied depth)
    (document.parts schema supplied)

theorem costAll_operationOutlines (values : Option Variables) (op : Operation) :
    Outline.costAll defaultComplexity (document.spreadCost schema defaultComplexity supplied depth)
      (document.operationOutlines schema values op) =
        Selection.costAll schema defaultComplexity values (document.spreadCost schema defaultComplexity supplied depth)
          (schema.root? op.kind) op.selections :=
  (Selection.costAll_eq_outlines (fun _ hf => spreadCost_of_undefined depth hf) _ _).symm

/-- The sum of what the selections of the operations cost with these values. -/
theorem partsCost_eq (document : Document) (schema : Schema) (defaultComplexity : Size) (supplied : Variables)
    (depth : Nat) :
    document.partsCost schema defaultComplexity supplied depth =
      (document.operationsInOrder.mapM fun entry =>
        Selection.costAll schema defaultComplexity (document.scopeValues schema supplied (some entry.2.position))
          (document.spreadCost schema defaultComplexity supplied depth) (schema.root? entry.2.kind)
          entry.2.selections).map List.sum := by
  rw [partsCost, parts, Outline.costAll_flatMap]
  simp only [costAll_operationOutlines]

/-- Where operations at one position define the same variables, that is what the document
    costs. -/
theorem partsCost_of_agree (hagree : document.ScopesAgree) :
    document.partsCost schema defaultComplexity supplied depth =
      document.cost schema defaultComplexity supplied depth := by
  have hperm := document.operationsInOrder_perm
  have hparts : document.parts schema supplied =
      (document.operationsInOrder.map Prod.snd).flatMap fun op =>
        document.operationOutlines schema (coercedValues op.variableDefinitions supplied) op := by
    rw [parts, List.flatMap_map]
    refine List.flatMap_congr fun entry hentry => ?_
    exact operationOutlines_of_agree hagree (hperm.mem_iff.mp (List.mem_map_of_mem hentry))
  rw [partsCost, hparts, Outline.costAll_flatMap, sum_mapM_perm hperm]
  simp only [costAll_operationOutlines]
  rfl

end Document

section

variable {schema : Schema} {a : Analyzer} {document : Document} {e : Execution}

/-- The tree of a pass costs what its operations cost together. -/
theorem builtTree_costs_iff (a : Analyzer) (schema : Schema) (document : Document) (supplied : Variables) {total : Size} :
    (Pass.builtTree a schema document supplied).Costs a.defaultComplexity 0 total ↔
      ∃ depth, document.partsCost schema a.defaultComplexity supplied depth = some total := by
  have hbuilt := Pass.built_scoped a schema document supplied
  obtain ⟨cs, hnode, hgrown⟩ := hbuilt.root
  have hnode' : (Pass.builtTree a schema document supplied).node 0 = ⟨.container, 0, [], cs⟩ := hnode
  have hundefined : ∀ f, document.fragment? f = none →
      (Pass.builtTree a schema document supplied).fragments.get? f = none := fun _ hf => hbuilt.undefined hf
  constructor
  · rintro ⟨depth, hdepth⟩
    -- the root has a value one deeper than the operations
    obtain _ | depth := depth
    · cases hdepth
    · obtain ⟨vs, hvs, rfl⟩ := CostTree.refold_succ_eq_some.mp hdepth
      rw [hnode'] at hvs
      refine ⟨depth, ?_⟩
      rw [Document.partsCost, hnode']
      exact Outline.costAll_of_refold (fun f v h => Document.spreadCost_of_refold hbuilt.stands hundefined depth h) _
        hgrown hvs
  · rintro ⟨depth, hcost⟩
    obtain ⟨vs, hvs, rfl⟩ := Outline.refolds_grownAll
      (fun f v h => Document.refolds_spreadCost hbuilt.stands hundefined depth h) _ hgrown hcost
    refine CostTree.refolds_iff.mpr ⟨vs, ?_, ?_⟩
    · rw [hnode']
      exact hvs
    · rw [hnode']
      rfl

/-- What is published is what the operations cost together, and where they have a cost that
    is published. -/
theorem complexity_eq_parts_iff (ha : schema.analyzer = some a) {c : Complexity} :
    (validate schema document e).execution.complexity = some c ↔
      c.max = a.maxComplexity ∧
        ∃ depth, document.partsCost schema a.defaultComplexity e.supplied depth = some c.current := by
  have hgrounded := Pass.builtTree_grounded a schema document e.supplied
  rw [← builtTree_costs_iff a schema document e.supplied, ← CostTree.fold_total_iff hgrounded]
  constructor
  · intro h
    cases hr : ((Pass.builtTree a schema document e.supplied).fold 0 a.defaultComplexity).1 with
    | total v =>
      rw [(validate_total ha hr).1, Option.some.injEq] at h
      subst h
      exact ⟨rfl, rfl⟩
    | cycle names =>
      rw [(validate_cycle ha hr).1] at h
      cases h
    | unfinished => exact absurd hr (CostTree.fold_finished hgrounded _)
  · rintro ⟨hmax, htotal⟩
    rw [(validate_total ha htotal).1, ← hmax]

/-- What is published is what the document costs, and where it has a cost that is published. -/
theorem complexity_eq_some_iff (ha : schema.analyzer = some a) (hscopes : document.ScopesAgree) {c : Complexity} :
    (validate schema document e).execution.complexity = some c ↔
      c.max = a.maxComplexity ∧
        ∃ depth, document.cost schema a.defaultComplexity e.supplied depth = some c.current := by
  simp only [complexity_eq_parts_iff ha, Document.partsCost_of_agree hscopes]

/-- What the selections cost is published, for operations at distinct positions. -/
theorem complexity_of_cost (ha : schema.analyzer = some a)
    (hpositions : (document.operations.values.map (·.position)).Nodup) {depth : Nat} {total : Size}
    (h : document.cost schema a.defaultComplexity e.supplied depth = some total) :
    (validate schema document e).execution.complexity = some ⟨total, a.maxComplexity⟩ :=
  (complexity_eq_some_iff ha (Document.scopesAgree_of_nodup hpositions)).mpr ⟨rfl, depth, h⟩

/-! ## Passes that build the same tree -/

variable {document' : Document}

/-- Passes that build the same tree publish the same. -/
theorem complexity_of_builtTree (ha : schema.analyzer = some a)
    (htree : Pass.builtTree a schema document' e.supplied = Pass.builtTree a schema document e.supplied) :
    (validate schema document' e).execution.complexity = (validate schema document e).execution.complexity := by
  ext c
  rw [complexity_eq_parts_iff ha, complexity_eq_parts_iff ha, ← builtTree_costs_iff, ← builtTree_costs_iff, htree]

/-- Passes that build the same tree and report the same about variables report the same, where
    their fragments are at the same places. -/
theorem errors_of_builtTree (ha : schema.analyzer = some a)
    (htree : Pass.builtTree a schema document' e.supplied = Pass.builtTree a schema document e.supplied)
    (hbuilt : (Pass.built a schema document' e.supplied).errors = (Pass.built a schema document e.supplied).errors)
    (hpositions : ∀ f, (document'.fragment? f).map (·.position) = (document.fragment? f).map (·.position)) :
    (validate schema document' e).execution.errors = (validate schema document e).execution.errors := by
  cases hr : ((Pass.builtTree a schema document e.supplied).fold 0 a.defaultComplexity).1 with
  | total v =>
    obtain ⟨-, herrors⟩ := validate_of_total ha hr
    obtain ⟨-, herrors'⟩ := validate_of_total ha (htree ▸ hr)
    rw [herrors, herrors', hbuilt]
  | cycle c =>
    obtain ⟨-, fragment, hfragment, herrors⟩ := validate_of_cycle ha hr
    obtain ⟨-, fragment', hfragment', herrors'⟩ := validate_of_cycle ha (htree ▸ hr)
    have hposition := hpositions (c.headD "")
    rw [hfragment, hfragment', Option.map_some, Option.map_some, Option.some.injEq] at hposition
    rw [herrors, herrors', hbuilt, hposition]
  | unfinished =>
    have hgrounded := Pass.builtTree_grounded a schema document e.supplied
    exact absurd hr (CostTree.fold_finished hgrounded _)

end

/-- In an acyclic document whose operations have distinct positions, what is published is
    what the selections cost, to any depth of spreads that is as many as the fragments. -/
theorem cost_published {schema : Schema} {a : Analyzer} (ha : schema.analyzer = some a) {document : Document}
    (hpositions : (document.operations.values.map (·.position)).Nodup) (hacyclic : document.Acyclic) (e : Execution) :
    ∃ total, (validate schema document e).execution.complexity = some ⟨total, a.maxComplexity⟩ ∧
      ∀ depth, document.fragments.keys.length ≤ depth →
        document.cost schema a.defaultComplexity e.supplied depth = some total := by
  have hsome : ∀ depth, document.fragments.keys.length ≤ depth →
      ∃ total, document.cost schema a.defaultComplexity e.supplied depth = some total :=
    fun depth hdepth => Document.exists_cost_of_acyclic hacyclic hdepth
  obtain ⟨total, htotal⟩ := hsome _ (Nat.le_refl _)
  have hpublished := complexity_of_cost ha hpositions htotal
  refine ⟨total, hpublished, fun depth hdepth => ?_⟩
  obtain ⟨total', htotal'⟩ := hsome depth hdepth
  have hpublished' := complexity_of_cost ha hpositions htotal'
  rw [hpublished, Option.some.injEq, Complexity.mk.injEq] at hpublished'
  rw [htotal', hpublished'.1]

/-- A list of items, each through a fragment that spreads another. -/
def listing : Document where
  operations := .ofPairs [(none, ⟨⟨1, 1⟩, .query, [⟨⟨1, 7⟩, "n", .named "Int" true, none, []⟩], [],
    [.field ⟨none, "items", [("first", .var "n")], []⟩ [.spread "Entry" []]]⟩)]
  fragments := .ofPairs [
    ("Entry", ⟨⟨2, 1⟩, "Item", [], [.field ⟨none, "name", [], []⟩ [], .spread "Rest" []]⟩),
    ("Rest", ⟨⟨3, 1⟩, "Item", [], [.field ⟨none, "name", [], []⟩ []]⟩)]

def three : Execution := .ofVariables (.ofPairs [("n", .number (.integer 3 (by decide)))])

/-- Three items of 1, and twice the name of 2 in each. -/
theorem cost_published_listing :
    shop.analyzer = some (.ofMax 10) ∧ (listing.operations.values.map (·.position)).Nodup ∧ listing.Acyclic ∧
      listing.cost shop 1 three.supplied 2 = some 15 ∧
      (validate shop listing three).execution.complexity = some ⟨15, 10⟩ := by
  have ha : shop.analyzer = some (.ofMax 10) := rfl
  have hpositions : (listing.operations.values.map (·.position)).Nodup := by decide +kernel
  have hacyclic : listing.Acyclic :=
    Document.acyclic_of_rank (fun f => if f = "Entry" then 1 else 0) (by decide +kernel)
  have hcost : listing.cost shop 1 three.supplied 2 = some 15 := by decide +kernel
  obtain ⟨total, hpublished, hdepths⟩ := cost_published ha hpositions hacyclic three
  have htotal : total = 15 := Option.some.inj ((hdepths 2 (by decide +kernel)).symm.trans hcost)
  exact ⟨ha, hpositions, hacyclic, hcost, htotal ▸ hpublished⟩

end QueryCost
