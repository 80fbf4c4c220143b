/-
  QueryCost.Proofs.Pass.Report — what a pass reports about the tree it has built.

  Every tree a pass builds is grounded, so the fold ends with a total or a cycle, and the
  pass reports one or the other. A cycle is found exactly when a fragment that is reached
  spreads itself; it is reported once, at a fragment of the document, and nothing is
  published (`cycle_reported`). A total is the exact cost clamped once, so the limit is
  held against the exact cost; the largest size as a limit rejects nothing
  (`limit_reported`).
-/

import QueryCost.Proofs.Cost.FoldResult
import QueryCost.Proofs.Pass.SharedScopes

namespace QueryCost

namespace Document

theorem nodup_bodies (document : Document) (schema : Schema) (supplied : Variables) :
    ((document.bodies schema supplied).map Prod.fst).Nodup := by
  have hperm := (sortByPosition_perm (·.2.position) document.fragments.entries).map Prod.fst
  have hkeys : (document.bodies schema supplied).map Prod.fst = document.fragmentsInOrder.map Prod.fst := by
    rw [bodies, List.map_map]
    rfl
  rw [hkeys]
  exact hperm.nodup_iff.mpr document.fragments.nodup

theorem mem_bodies {document : Document} {schema : Schema} {supplied : Variables} {f : String} {below : List Outline} :
    (f, below) ∈ document.bodies schema supplied ↔
      ∃ fragment, document.fragment? f = some fragment ∧
        below = document.fragmentOutlines schema supplied fragment := by
  have hperm := sortByPosition_perm (·.2.position) document.fragments.entries
  simp only [bodies, List.mem_map, fragment?, Table.get?_eq_some_iff]
  constructor
  · rintro ⟨⟨g, fragment⟩, hmem, heq⟩
    cases heq
    exact ⟨fragment, hperm.mem_iff.mp hmem, rfl⟩
  · rintro ⟨fragment, hmem, rfl⟩
    exact ⟨(f, fragment), hperm.mem_iff.mpr hmem, rfl⟩

end Document

namespace Pass

/-! ## The tree -/

namespace BuiltFrom

variable {schema : Schema} {document : Document} {supplied : Variables} {parts : List Outline} {s : Pass}

theorem grounded (h : BuiltFrom schema document supplied parts s) : s.tree.Grounded 0 := by
  rw [h.tree]
  exact CostTree.grounded_foldl_plant (CostTree.grounded_rooted parts) _

/-- The tree holds the fragments of the document and no other. -/
theorem undefined (h : BuiltFrom schema document supplied parts s) {f : String} (hf : document.fragment? f = none) :
    s.tree.fragments.get? f = none := by
  have hnot : f ∉ (document.bodies schema supplied).map Prod.fst := by
    intro hmem
    obtain ⟨⟨g, below⟩, hbody, rfl⟩ := List.mem_map.mp hmem
    obtain ⟨fragment, hfragment, -⟩ := Document.mem_bodies.mp hbody
    rw [hf] at hfragment
    cases hfragment
  rw [h.tree, CostTree.foldl_plant_undefined _ hnot, (CostTree.rooted_spec parts).2.1]
  rfl

theorem stands (h : BuiltFrom schema document supplied parts s) : s.tree.Stands document schema supplied := by
  intro f fragment hf
  have hnew : ∀ g ∈ (document.bodies schema supplied).map Prod.fst,
      (CostTree.rooted parts).fragments.get? g = none := by
    intro g _
    rw [(CostTree.rooted_spec parts).2.1]
    rfl
  have hmem : (f, document.fragmentOutlines schema supplied fragment) ∈ document.bodies schema supplied :=
    Document.mem_bodies.mpr ⟨fragment, hf, rfl⟩
  rw [h.tree]
  exact CostTree.foldl_plant_spec _ (document.nodup_bodies schema supplied) hnew _ hmem

/-- The root has grown from the outlines of the operations. -/
theorem root (h : BuiltFrom schema document supplied parts s) :
    ∃ cs, s.tree.node 0 = ⟨.container, 0, [], cs⟩ ∧ s.tree.GrownAll 1 parts cs := by
  obtain ⟨hlt, -, cs, hnode, hgrown⟩ := CostTree.rooted_spec parts
  obtain ⟨hsize, hold⟩ := CostTree.foldl_plant_old (document.bodies schema supplied) (CostTree.rooted parts)
  rw [h.tree]
  refine ⟨cs, (hold 0 hlt).trans hnode, ?_⟩
  exact CostTree.grownAll_mono (Nat.le_refl _) hsize (fun id _ hid => hold id hid) hgrown

end BuiltFrom

/-- The tree a pass folds. -/
def builtTree (a : Analyzer) (schema : Schema) (document : Document) (supplied : Variables) : CostTree :=
  (built a schema document supplied).tree

/-- Passes with the same parts and bodies build the same tree. -/
theorem builtTree_congr (a : Analyzer) {schema schema' : Schema} {document document' : Document}
    {supplied supplied' : Variables} (hparts : document'.parts schema' supplied' = document.parts schema supplied)
    (hbodies : document'.bodies schema' supplied' = document.bodies schema supplied) :
    builtTree a schema' document' supplied' = builtTree a schema document supplied := by
  have htree := (built_scoped a schema' document' supplied').tree
  rw [hparts, hbodies] at htree
  exact htree.trans (built_scoped a schema document supplied).tree.symm

theorem builtTree_grounded (a : Analyzer) (schema : Schema) (document : Document) (supplied : Variables) :
    (builtTree a schema document supplied).Grounded 0 :=
  (built_scoped a schema document supplied).grounded

/-! ## The end of a pass -/

variable {a : Analyzer} {p : Place} {s : Pass}

theorem finish_total (hframes : s.frames = [0]) {v : Size} (h : (s.tree.fold 0 a.defaultComplexity).1 = .total v) :
    (s.finish a p).result = some ⟨v, a.maxComplexity⟩ ∧
      (s.finish a p).errors = s.errors ++ (evaluate v a.maxComplexity).error?.toList := by
  simp only [finish, hframes, h, judge]
  cases (evaluate v a.maxComplexity).error? with
  | none => simp [close]
  | some e => simp [close]

theorem finish_cycle (hframes : s.frames = [0]) {c : List String}
    (h : (s.tree.fold 0 a.defaultComplexity).1 = .cycle c) :
    (s.finish a p).result = s.result ∧
      (s.finish a p).errors =
        s.errors ++ [⟨.cycle c, ((p.document.fragment? (c.headD "")).map (·.position)).toList⟩] := by
  simp only [finish, hframes, h, reportCycle]
  cases p.document.fragment? (c.headD "") <;> exact ⟨rfl, rfl⟩

end Pass

variable {a : Analyzer} {schema : Schema} {document : Document} {e : Execution}

theorem validate_of_no_analyzer (ha : schema.analyzer = none) (document : Document) (e : Execution) :
    (validate schema document e).execution = e := by
  simp only [validate, ha]

/-- The execution carries what the pass reports and the result it has. -/
theorem validate_of_analyzer (ha : schema.analyzer = some a) (document : Document) (e : Execution) :
    (validate schema document e).execution.errors = (runPass a schema document e.supplied).errors ∧
      (validate schema document e).execution.complexity = (runPass a schema document e.supplied).result := by
  simp only [validate, ha]
  cases (runPass a schema document e.supplied).result <;> exact ⟨rfl, rfl⟩

theorem Pass.isVariable_of_built (a : Analyzer) (schema : Schema) (document : Document) (supplied : Variables) :
    ∀ err ∈ (built a schema document supplied).errors, err.cause.isVariable = true :=
  (built_scoped a schema document supplied).errors

/-- What a pass publishes, and what it reports after the errors about variables, by what the
    fold comes to. -/
theorem validate_of_total (ha : schema.analyzer = some a) {v : Size}
    (h : ((Pass.builtTree a schema document e.supplied).fold 0 a.defaultComplexity).1 = .total v) :
    (validate schema document e).execution.complexity = some ⟨v, a.maxComplexity⟩ ∧
      (validate schema document e).execution.errors =
        (Pass.built a schema document e.supplied).errors ++ (evaluate v a.maxComplexity).error?.toList := by
  have hbuilt := Pass.built_scoped a schema document e.supplied
  obtain ⟨herrors, hcomplexity⟩ := validate_of_analyzer ha document e
  rw [herrors, hcomplexity, Pass.runPass_eq]
  exact Pass.finish_total (p := ⟨schema, document, e.supplied, []⟩) hbuilt.frames h

theorem validate_of_cycle (ha : schema.analyzer = some a) {c : List String}
    (h : ((Pass.builtTree a schema document e.supplied).fold 0 a.defaultComplexity).1 = .cycle c) :
    (validate schema document e).execution.complexity = none ∧
      ∃ fragment, document.fragment? (c.headD "") = some fragment ∧
        (validate schema document e).execution.errors =
          (Pass.built a schema document e.supplied).errors ++ [⟨.cycle c, [fragment.position]⟩] := by
  have hbuilt := Pass.built_scoped a schema document e.supplied
  obtain ⟨herrors, hcomplexity⟩ := validate_of_analyzer ha document e
  obtain ⟨hresult, hreported⟩ := Pass.finish_cycle (p := ⟨schema, document, e.supplied, []⟩) hbuilt.frames h
  obtain ⟨body, hbody⟩ := (CostTree.isCycle_of_fold h).head_defined
  rw [herrors, hcomplexity, Pass.runPass_eq]
  cases hf : document.fragment? (c.headD "") with
  | none =>
    -- a cycle starts at a fragment the tree holds, and the tree holds only the document's
    have hnone := hbuilt.undefined hf
    rw [Pass.builtTree, hnone] at hbody
    cases hbody
  | some fragment =>
    simp only [hf] at hreported
    exact ⟨hresult.trans hbuilt.result, fragment, rfl, hreported⟩

theorem validate_total (ha : schema.analyzer = some a) {v : Size}
    (h : ((Pass.builtTree a schema document e.supplied).fold 0 a.defaultComplexity).1 = .total v) :
    (validate schema document e).execution.complexity = some ⟨v, a.maxComplexity⟩ ∧
      ∃ errors, (∀ err ∈ errors, err.cause.isVariable = true) ∧
        (validate schema document e).execution.errors = errors ++ (evaluate v a.maxComplexity).error?.toList := by
  obtain ⟨hcomplexity, herrors⟩ := validate_of_total ha h
  exact ⟨hcomplexity, _, Pass.isVariable_of_built a schema document e.supplied, herrors⟩

theorem validate_cycle (ha : schema.analyzer = some a) {c : List String}
    (h : ((Pass.builtTree a schema document e.supplied).fold 0 a.defaultComplexity).1 = .cycle c) :
    (validate schema document e).execution.complexity = none ∧
      ∃ errors fragment, (∀ err ∈ errors, err.cause.isVariable = true) ∧
        document.fragment? (c.headD "") = some fragment ∧
        (validate schema document e).execution.errors = errors ++ [⟨.cycle c, [fragment.position]⟩] := by
  obtain ⟨hcomplexity, fragment, hfragment, herrors⟩ := validate_of_cycle ha h
  exact ⟨hcomplexity, _, fragment, Pass.isVariable_of_built a schema document e.supplied, hfragment, herrors⟩

/-! ## Cycles -/

def Cause.isCycle : Cause → Bool
  | .cycle _ => true
  | _ => false

theorem filter_isCycle {errors : List RuleError} (h : ∀ e ∈ errors, e.cause.isVariable = true) :
    errors.filter (·.cause.isCycle) = [] := by
  rw [List.filter_eq_nil_iff]
  intro e he hcycle
  have hvariable := h e he
  cases hc : e.cause <;> simp [hc, Cause.isCycle, Cause.isVariable] at hcycle hvariable

/-- The fold of the tree a pass has built finds a cycle exactly when a fragment that is
    reached spreads itself. What it finds is a cycle; nothing is published, and it is
    reported once, at the definition of its first fragment. -/
theorem cycle_reported (ha : schema.analyzer = some a) (document : Document) (e : Execution) :
    ((∃ c, ((Pass.builtTree a schema document e.supplied).fold 0 a.defaultComplexity).1 = .cycle c) ↔
        (Pass.builtTree a schema document e.supplied).Cyclic 0) ∧
      ∀ c, ((Pass.builtTree a schema document e.supplied).fold 0 a.defaultComplexity).1 = .cycle c →
        (Pass.builtTree a schema document e.supplied).IsCycle 0 c ∧
          (validate schema document e).execution.complexity = none ∧
          ∃ fragment, document.fragment? (c.headD "") = some fragment ∧
            (validate schema document e).execution.errors.filter (·.cause.isCycle) =
              [⟨.cycle c, [fragment.position]⟩] := by
  refine ⟨CostTree.fold_cycle_iff (Pass.builtTree_grounded a schema document e.supplied), fun c hc => ?_⟩
  obtain ⟨hcomplexity, errors, fragment, hvariable, hfragment, herrors⟩ := validate_cycle ha hc
  refine ⟨CostTree.isCycle_of_fold hc, hcomplexity, fragment, hfragment, ?_⟩
  rw [herrors, List.filter_append, filter_isCycle hvariable]
  rfl

/-- A query leads to a list of items, as many as its argument says. An item costs 1, its
    name 2. -/
def shop : Schema where
  queryType := "Query"
  mutationType := none
  subscriptionType := none
  types := .ofPairs [
    ("Query", { TypeEntry.bare "Query" .object with fields := .ofPairs [("items",
      ⟨"items", .list (.named "Item" true) true, .ofPairs [("first", ⟨"first", .named "Int" true, none⟩)],
        some (.list (some 1) none (.ofList ["first"]))⟩)] }),
    ("Item", { TypeEntry.bare "Item" .object with fields := .ofPairs [("name",
      ⟨"name", .named "String" true, ∅, some (.flat (some 2))⟩)] })]
  implementors := ∅
  analyzer := some (.ofMax 10)

/-- The query spreads `A`, which leads into a cycle of the other two. -/
def ring : Document where
  operations := .ofPairs [(none, ⟨⟨1, 1⟩, .query, [], [], [.spread "A" []]⟩)]
  fragments := .ofPairs [("A", ⟨⟨2, 1⟩, "Query", [], [.spread "B" []]⟩),
    ("B", ⟨⟨3, 1⟩, "Query", [], [.spread "C" []]⟩), ("C", ⟨⟨4, 1⟩, "Query", [], [.spread "B" []]⟩)]

theorem cycle_reported_ring :
    shop.analyzer = some (.ofMax 10) ∧
      ((Pass.builtTree (.ofMax 10) shop ring ∅).fold 0 1).1 = .cycle ["B", "C", "B"] ∧
      (Pass.builtTree (.ofMax 10) shop ring ∅).Cyclic 0 ∧
      (validate shop ring (.ofVariables ∅)).execution.complexity = none ∧
      (validate shop ring (.ofVariables ∅)).execution.errors.filter (·.cause.isCycle) =
        [⟨.cycle ["B", "C", "B"], [⟨3, 1⟩]⟩] := by
  have hfold : ((Pass.builtTree (.ofMax 10) shop ring ∅).fold 0 1).1 = .cycle ["B", "C", "B"] := by decide +kernel
  have ha : shop.analyzer = some (.ofMax 10) := rfl
  obtain ⟨hiff, hcycle⟩ := cycle_reported ha ring (.ofVariables ∅)
  obtain ⟨_, hcomplexity, fragment, hfragment, herrors⟩ := hcycle _ hfold
  have hposition : fragment.position = ⟨3, 1⟩ := by
    have hB : ring.fragment? "B" = some ⟨⟨3, 1⟩, "Query", [], [.spread "C" []]⟩ := by rfl
    rw [Option.some.inj (hfragment.symm.trans hB)]
  rw [hposition] at herrors
  exact ⟨ha, hfold, hiff.mp ⟨_, hfold⟩, hcomplexity, herrors⟩

/-! ## The limit -/

def Cause.isLimit : Cause → Bool
  | .limit _ => true
  | _ => false

theorem limit_mem_iff {errors : List RuleError} (h : ∀ e ∈ errors, e.cause.isVariable = true) (v max : Size) :
    (∃ e ∈ errors ++ (evaluate v max).error?.toList, e.cause.isLimit = true) ↔ max < v := by
  have hnone : ∀ e ∈ errors, e.cause.isLimit = false := by
    intro e he
    have hvariable := h e he
    cases hc : e.cause <;> simp [hc, Cause.isLimit, Cause.isVariable] at hvariable ⊢
  unfold evaluate
  split
  · rename_i hlt
    exact ⟨fun _ => hlt, fun _ => ⟨_, List.mem_append_right _ (List.mem_singleton.mpr rfl), rfl⟩⟩
  · rename_i hle
    constructor
    · rintro ⟨e, he, hlimit⟩
      rcases List.mem_append.mp he with he | he
      · rw [hnone e he] at hlimit
        cases hlimit
      · cases he
    · exact fun hlt => absurd hlt hle

/-- A total is the exact cost clamped, and the limit is held against the exact cost: a
    limit below the largest size is reported to be exceeded exactly when the exact cost
    exceeds it, the largest size never is. -/
theorem limit_reported (ha : schema.analyzer = some a) {document : Document} {e : Execution} {v : Size}
    (h : ((Pass.builtTree a schema document e.supplied).fold 0 a.defaultComplexity).1 = .total v) :
    ∃ exact, (Pass.builtTree a schema document e.supplied).ExactlyCosts a.defaultComplexity.toNat 0 exact ∧
      v.toNat = min exact Size.limit ∧
      (a.maxComplexity.toNat < Size.limit →
        ((∃ err ∈ (validate schema document e).execution.errors, err.cause.isLimit = true) ↔
          a.maxComplexity.toNat < exact)) ∧
      (a.maxComplexity.toNat = Size.limit →
        ∀ err ∈ (validate schema document e).execution.errors, err.cause.isLimit = false) := by
  have hcosts : (Pass.builtTree a schema document e.supplied).Costs a.defaultComplexity 0 v :=
    (CostTree.fold_total_iff (Pass.builtTree_grounded a schema document e.supplied)).mp h
  obtain ⟨exact, hexact, rfl⟩ := CostTree.exists_exactlyCosts hcosts
  obtain ⟨_, errors, hvariable, herrors⟩ := validate_total ha h
  have hclamp := Size.toNat_clamp exact
  have hiff := limit_mem_iff hvariable (Size.clamp exact) a.maxComplexity
  have hlt : a.maxComplexity < Size.clamp exact ↔ a.maxComplexity.toNat < min exact Size.limit := by rw [← hclamp]; rfl
  rw [herrors]
  refine ⟨exact, hexact, hclamp, fun hmax => ?_, fun hmax err herr => ?_⟩
  · rw [hiff, hlt]
    omega
  · by_contra hlimit
    have := hlt.mp (hiff.mp ⟨err, herr, by simpa using hlimit⟩)
    omega

/-- As many items as there are sizes. -/
def flood : Document where
  operations := .ofPairs [(none, ⟨⟨1, 1⟩, .query, [], [],
    [.field ⟨none, "items", [("first", .number (.integer 18446744073709551615 (by decide)))], []⟩
      [.field ⟨none, "name", [], []⟩ []]]⟩)]
  fragments := ∅

theorem limit_reported_flood :
    shop.analyzer = some (.ofMax 10) ∧
      ((Pass.builtTree (.ofMax 10) shop flood ∅).fold 0 1).1 = .total .largest ∧
      (∃ exact, (Pass.builtTree (.ofMax 10) shop flood ∅).ExactlyCosts 1 0 exact ∧ Size.limit ≤ exact) ∧
      ∃ err ∈ (validate shop flood (.ofVariables ∅)).execution.errors, err.cause.isLimit = true := by
  have hfold : ((Pass.builtTree (.ofMax 10) shop flood ∅).fold 0 1).1 = .total .largest := by decide +kernel
  have ha : shop.analyzer = some (.ofMax 10) := rfl
  obtain ⟨exact, hexact, hclamp, hiff, -⟩ := limit_reported ha (e := .ofVariables ∅) hfold
  have hlimit : Size.limit ≤ exact := by
    have hlargest : Size.largest.toNat = Size.limit := rfl
    omega
  have hmax : (Analyzer.ofMax 10).maxComplexity.toNat = 10 := by decide
  have hten : 10 < Size.limit := by decide
  refine ⟨ha, hfold, ⟨exact, hexact, hlimit⟩, ?_⟩
  exact (hiff (by omega)).mpr (by omega)

end QueryCost
