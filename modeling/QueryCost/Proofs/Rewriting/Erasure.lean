/-
  QueryCost.Proofs.Rewriting.Erasure — selections that cannot count are of no consequence.

  A field is noise when its name is the system's own, when the type around it is unknown, or
  when that type is no union and does not declare it. Noise has no outlines and needs no
  variables, and neither has a spread of a fragment there is none of. Where the variables of
  a scope cannot be coerced, fields whose sizes need them have no outlines either, though
  they had the variables coerced. Erasing goes by the types as a walk does, so it goes
  through what restores a type below one that is unknown.

  - `outlinesAll_erasedAll`, `needsValuesAll_erasedAll`: erasing keeps the outlines of
    selections. Without noise they need values as before; without sized fields they need
    none.
  - `builtTree_erased`: a pass builds the same tree.
  - `complexity_keeping`: fragments that are not reached do not count.
  - `erasure_published`: without noise a pass publishes and reports the same; without the
    sized fields of scopes that fail and without the fragments that are not reached it still
    publishes the same.
-/

import QueryCost.Proofs.Pass.Outcome
import QueryCost.Proofs.Rewriting.Alike

namespace QueryCost

/-! ## Fields that cannot count -/

/-- The field counts for nothing, whatever the values of variables are. -/
def Field.isNoise (parent : Option TypeEntry) (f : Field) : Bool :=
  isIntrospection f.name ||
    match parent with
    | none => true
    | some t => !t.isUnion && (t.field? f.name).isNone

/-- The field has the cost of a list whose sizes come from arguments. -/
def Field.isSized (schema : Schema) (parent : Option TypeEntry) (f : Field) : Bool :=
  match parent with
  | none => false
  | some t => !t.isUnion && ((schema.fieldCost t f.name).bind (·.sizeArguments?)).isSome

section

variable {schema : Schema} {values : Option Variables} {parent : Option TypeEntry} {f : Field}

theorem listSizes_eq_none_iff {entry : FieldEntry} {cost : Option DeclaredCost} :
    listSizes f entry cost values = none ↔ (cost.bind (·.sizeArguments?)).isSome = true ∧ values = none := by
  unfold listSizes
  cases cost.bind (·.sizeArguments?) <;> simp

/-- A field counts for nothing when it is noise, or when its sizes need values and there are
    none. -/
theorem fieldRole_eq_nothing_iff :
    fieldRole schema values parent f = .nothing ↔
      f.isNoise parent = true ∨ f.isSized schema parent = true ∧ values = none := by
  unfold fieldRole Field.isNoise Field.isSized
  cases isIntrospection f.name with
  | true => simp
  | false =>
    cases parent with
    | none => simp
    | some t =>
      cases hunion : t.isUnion with
      | true => simp [hunion]
      | false =>
        cases hentry : t.field? f.name with
        | none => simp [hunion, hentry]
        | some entry =>
          have hsizes : listSizes f entry (schema.fieldCost t f.name) values = none ↔ _ := listSizes_eq_none_iff
          cases hlist : listSizes f entry (schema.fieldCost t f.name) values <;> simp_all

theorem needsValues_fieldRole (h : f.isNoise parent = false) :
    (fieldRole schema (some ∅) parent f).needsValues = f.isSized schema parent := by
  obtain ⟨hname, h⟩ := Bool.or_eq_false_iff.mp h
  unfold fieldRole Field.isSized
  cases parent with
  | none => simp at h
  | some t =>
    cases hunion : t.isUnion with
    | true => simp [hname, hunion, FieldRole.needsValues]
    | false =>
      obtain ⟨entry, hentry⟩ : ∃ entry, t.field? f.name = some entry := by
        simpa [hunion, ← Option.isSome_iff_exists] using h
      have hsome : listSizes f entry (schema.fieldCost t f.name) (some ∅) ≠ none := by
        simp [listSizes_eq_none_iff]
      obtain ⟨sizes, hsizes⟩ := Option.ne_none_iff_exists'.mp hsome
      simp [hname, hunion, hentry, hsizes, FieldRole.needsValues]

/-- A field needs values where it is sized or what is below it does, unless it is noise. -/
theorem Selection.needsValues_field (below : List Selection) :
    (Selection.field f below).needsValues schema parent =
      (!f.isNoise parent && (f.isSized schema parent || needsValuesAll schema (schema.landing parent f.name) below)) := by
  cases hnoise : f.isNoise parent with
  | true =>
    have hnothing : fieldRole schema (some ∅) parent f = .nothing := fieldRole_eq_nothing_iff.mpr (.inl hnoise)
    simp only [needsValues, hnothing, Bool.not_true, Bool.false_and]
  | false =>
    have hentered : fieldRole schema (some ∅) parent f ≠ .nothing := by
      simp [fieldRole_eq_nothing_iff, hnoise]
    rw [needsValues_of_entered hentered, needsValues_fieldRole hnoise, Bool.not_false, Bool.true_and]

end

/-! ## Erasing selections -/

section

variable (document : Document) (schema : Schema) (failed : Bool)

mutual

/-- The selection, on a type, without what cannot count: noise, spreads of fragments there
    are none of and, where coercion has `failed`, sized fields. -/
def Selection.erased : Option TypeEntry → Selection → List Selection
  | parent, .field f below =>
    if f.isNoise parent || failed && f.isSized schema parent then []
    else [.field f (erasedAll (schema.landing parent f.name) below)]
  | _, .inline (some t) directives below => [.inline (some t) directives (erasedAll (schema.type? t) below)]
  | parent, .inline none directives below => [.inline none directives (erasedAll parent below)]
  | _, .spread f directives => if (document.fragment? f).isSome then [.spread f directives] else []

def Selection.erasedAll : Option TypeEntry → List Selection → List Selection
  | _, [] => []
  | parent, s :: rest => erased parent s ++ erasedAll parent rest

end

def Operation.erased (op : Operation) : Operation :=
  { op with selections := Selection.erasedAll document schema failed (schema.root? op.kind) op.selections }

def Fragment.erased (f : Fragment) : Fragment :=
  { f with selections := Selection.erasedAll document schema failed (schema.type? f.condition) f.selections }

end

section

variable {document document' : Document} {schema : Schema} {values : Option Variables} {failed : Bool}

mutual

/-- What is left of a selection has its outlines, where sized fields are erased for want of
    values only. -/
theorem Selection.outlinesAll_erased
    (hdefined : ∀ f, (document'.fragment? f).isSome = (document.fragment? f).isSome)
    (hvalues : failed = true → values = none) (parent : Option TypeEntry) (s : Selection) :
    outlinesAll document' schema values parent (s.erased document schema failed parent) =
      s.outlines document schema values parent := by
  cases s with
  | field f below =>
    rw [erased]
    split
    · rename_i herased
      have hnothing : fieldRole schema values parent f = .nothing := by
        rw [fieldRole_eq_nothing_iff]
        rcases Bool.or_eq_true_iff.mp herased with hnoise | hsized
        · exact .inl hnoise
        · obtain ⟨hfailed, hsized⟩ := Bool.and_eq_true_iff.mp hsized
          exact .inr ⟨hsized, hvalues hfailed⟩
      simp only [outlines, hnothing, outlinesAll]
    · rw [outlinesAll_singleton, outlines, outlines,
        outlinesAll_erasedAll hdefined hvalues (schema.landing parent f.name) below]
  | inline condition directives below =>
    cases condition with
    | none =>
      rw [erased, outlinesAll_singleton]
      exact outlinesAll_erasedAll hdefined hvalues parent below
    | some t =>
      rw [erased, outlinesAll_singleton]
      exact outlinesAll_erasedAll hdefined hvalues (schema.type? t) below
  | spread f directives =>
    rw [erased, outlines]
    split
    · rename_i hf
      rw [outlinesAll_singleton, outlines, hdefined, if_pos hf]
    · rfl

theorem Selection.outlinesAll_erasedAll
    (hdefined : ∀ f, (document'.fragment? f).isSome = (document.fragment? f).isSome)
    (hvalues : failed = true → values = none) (parent : Option TypeEntry) (selections : List Selection) :
    outlinesAll document' schema values parent (erasedAll document schema failed parent selections) =
      outlinesAll document schema values parent selections := by
  cases selections with
  | nil => rfl
  | cons s rest =>
    rw [erasedAll, outlinesAll_append, outlinesAll_erased hdefined hvalues parent s,
      outlinesAll_erasedAll hdefined hvalues parent rest, outlinesAll]

end

mutual

/-- What is left of a selection needs values as it did, and none without its sized fields. -/
theorem Selection.needsValuesAll_erased (parent : Option TypeEntry) (s : Selection) :
    needsValuesAll schema parent (s.erased document schema failed parent) =
      (s.needsValues schema parent && !failed) := by
  cases s with
  | field f below =>
    have hbelow := needsValuesAll_erasedAll (schema.landing parent f.name) below
    rw [needsValues_field, erased]
    split
    · rename_i herased
      rw [needsValuesAll]
      cases failed <;> simp_all
    · rename_i hkept
      rw [needsValuesAll_singleton, needsValues_field, hbelow]
      cases failed <;> simp_all
  | inline condition directives below =>
    cases condition with
    | none =>
      rw [erased, needsValuesAll_singleton]
      exact needsValuesAll_erasedAll parent below
    | some t =>
      rw [erased, needsValuesAll_singleton]
      exact needsValuesAll_erasedAll (schema.type? t) below
  | spread f directives =>
    rw [erased]
    split <;> rfl

theorem Selection.needsValuesAll_erasedAll (parent : Option TypeEntry) (selections : List Selection) :
    needsValuesAll schema parent (erasedAll document schema failed parent selections) =
      (needsValuesAll schema parent selections && !failed) := by
  cases selections with
  | nil => rfl
  | cons s rest =>
    rw [erasedAll, needsValuesAll_append, needsValuesAll_erased parent s, needsValuesAll_erasedAll parent rest,
      needsValuesAll, Bool.and_or_distrib_right]

end

mutual

/-- What is left of a selection spreads nothing new. -/
theorem Selection.spreadsAll_erased (parent : Option TypeEntry) (s : Selection) :
    spreadsAll (s.erased document schema failed parent) ⊆ s.spreads := by
  cases s with
  | field f below =>
    rw [erased]
    split
    · exact List.nil_subset _
    · rw [spreadsAll, spreadsAll, List.append_nil]
      exact spreadsAll_erasedAll (schema.landing parent f.name) below
  | inline condition directives below =>
    cases condition with
    | none =>
      rw [erased, spreadsAll, spreadsAll, List.append_nil]
      exact spreadsAll_erasedAll parent below
    | some t =>
      rw [erased, spreadsAll, spreadsAll, List.append_nil]
      exact spreadsAll_erasedAll (schema.type? t) below
  | spread f directives =>
    rw [erased]
    split
    · exact List.Subset.refl _
    · exact List.nil_subset _

theorem Selection.spreadsAll_erasedAll (parent : Option TypeEntry) (selections : List Selection) :
    spreadsAll (erasedAll document schema failed parent selections) ⊆ spreadsAll selections := by
  cases selections with
  | nil => exact List.Subset.refl _
  | cons s rest =>
    rw [erasedAll, spreadsAll_append, spreadsAll]
    refine List.append_subset.mpr ⟨?_, ?_⟩
    · exact List.subset_append_of_subset_left _ (spreadsAll_erased parent s)
    · exact List.subset_append_of_subset_right _ (spreadsAll_erasedAll parent rest)

end

end

/-! ## Tables -/

namespace Table

variable {κ α β : Type}

/-- The table with another value under each key. -/
def mapValues (g : α → β) (t : Table κ α) : Table κ β :=
  ⟨t.entries.map fun entry => (entry.1, g entry.2), by
    rw [List.map_map]
    exact t.nodup⟩

/-- The entries whose keys are kept. -/
def restrict (keep : κ → Bool) (t : Table κ α) : Table κ α :=
  ⟨t.entries.filter (keep ·.1), t.nodup.sublist (List.filter_sublist.map Prod.fst)⟩

variable [DecidableEq κ]

theorem get?_mapValues (g : α → β) (t : Table κ α) (k : κ) : (t.mapValues g).get? k = (t.get? k).map g := by
  have hentries : ∀ entries : List (κ × α),
      Entries.get? k (entries.map fun entry => (entry.1, g entry.2)) = (Entries.get? k entries).map g := by
    intro entries
    induction entries with
    | nil => rfl
    | cons entry rest ih =>
      simp only [List.map_cons, Entries.get?, ih]
      split <;> rfl
  exact hentries t.entries

theorem get?_restrict (keep : κ → Bool) (t : Table κ α) (k : κ) :
    (t.restrict keep).get? k = if keep k then t.get? k else none := by
  apply Option.ext
  intro v
  rw [get?_eq_some_iff]
  show (k, v) ∈ t.entries.filter (keep ·.1) ↔ _
  rw [List.mem_filter, ← get?_eq_some_iff]
  cases keep k <;> simp

end Table

/-! ## Erasing from documents -/

namespace Document

/-- The document without what cannot count, sized fields being erased from the scopes that
    have failed. -/
def erased (document : Document) (schema : Schema) (failed : VariableScope → Bool) : Document where
  operations := document.operations.mapValues fun op => op.erased document schema (failed (some op.position))
  fragments := document.fragments.mapValues fun f => f.erased document schema (failed none)

/-- The variables of the scope cannot be coerced. -/
def scopeFails (document : Document) (schema : Schema) (supplied : Variables) (scope : VariableScope) : Bool :=
  (document.scopeValues schema supplied scope).isNone

/-- Where a pass has failed to coerce the variables of a scope, the scope fails. -/
theorem scopeFails_of_built {a : Analyzer} {schema : Schema} {document : Document} {supplied : Variables}
    {scope : VariableScope} (h : (Pass.built a schema document supplied).coerced.get? scope = some none) :
    document.scopeFails schema supplied scope = true :=
  Option.isNone_iff_eq_none.mpr (Pass.coerced_built a schema document supplied h)

/-- The document without noise and without spreads of fragments there are none of. -/
def withoutNoise (document : Document) (schema : Schema) : Document := document.erased schema fun _ => false

/-- And without the sized fields of scopes that fail. -/
def withoutPruned (document : Document) (schema : Schema) (supplied : Variables) : Document :=
  document.erased schema (document.scopeFails schema supplied)

/-- The document without the fragments that are not kept. -/
def keeping (document : Document) (keep : String → Bool) : Document :=
  { document with fragments := document.fragments.restrict keep }

section

variable {document : Document} {schema : Schema} {supplied : Variables} {failed : VariableScope → Bool}

theorem fragment?_erased (f : String) :
    (document.erased schema failed).fragment? f =
      (document.fragment? f).map (·.erased document schema (failed none)) :=
  Table.get?_mapValues _ document.fragments f

theorem isSome_fragment?_erased (f : String) :
    ((document.erased schema failed).fragment? f).isSome = (document.fragment? f).isSome := by
  rw [fragment?_erased, Option.isSome_map]

theorem operationsInOrder_erased :
    (document.erased schema failed).operationsInOrder = document.operationsInOrder.map fun entry =>
      (entry.1, entry.2.erased document schema (failed (some entry.2.position))) :=
  sortByPosition_map _ _ document.operations.entries

theorem fragmentsInOrder_erased :
    (document.erased schema failed).fragmentsInOrder = document.fragmentsInOrder.map fun entry =>
      (entry.1, entry.2.erased document schema (failed none)) :=
  sortByPosition_map _ _ document.fragments.entries

theorem fragmentScopeDefinitions_erased :
    (document.erased schema failed).fragmentScopeDefinitions = document.fragmentScopeDefinitions := by
  rw [fragmentScopeDefinitions, operationsInOrder_erased, List.flatMap_map]
  rfl

theorem needsValues_erased (op : Operation) {failed : Bool} :
    (op.erased document schema failed).needsValues schema = (op.needsValues schema && !failed) :=
  Selection.needsValuesAll_erasedAll _ _

theorem firstInNeed_erased {position : Position} (hkept : failed (some position) = false)
    (ops : List (Option String × Operation)) :
    firstInNeed schema position (ops.map fun entry =>
        (entry.1, entry.2.erased document schema (failed (some entry.2.position)))) =
      (firstInNeed schema position ops).map (·.erased document schema false) := by
  induction ops with
  | nil => rfl
  | cons entry rest ih =>
    have hposition : ∀ failed, (entry.2.erased document schema failed).position = entry.2.position := fun _ => rfl
    rw [List.map_cons, firstInNeed_cons, firstInNeed_cons, ih, needsValues_erased, hposition]
    by_cases hhere : entry.2.position = position
    · rw [hhere, hkept, Bool.not_false, Bool.and_true]
      split <;> rfl
    · simp only [hhere, decide_false, Bool.false_and, Bool.false_eq_true, if_false]

/-- A scope that has not failed has the variables it had. -/
theorem scopeDefinitions_erased {position : Position} (hkept : failed (some position) = false) :
    (document.erased schema failed).scopeDefinitions schema (some position) =
      document.scopeDefinitions schema (some position) := by
  simp only [scopeDefinitions, operationsInOrder_erased, firstInNeed_erased hkept]
  cases firstInNeed schema position document.operationsInOrder <;> rfl

variable (hfailed : ∀ scope, failed scope = true → document.scopeValues schema supplied scope = none)
include hfailed

/-- An operation keeps its outlines, each time with the values of its scope. -/
theorem operationOutlines_erased (op : Operation) :
    (document.erased schema failed).operationOutlines schema
        ((document.erased schema failed).scopeValues schema supplied (some op.position))
        (op.erased document schema (failed (some op.position))) =
      document.operationOutlines schema (document.scopeValues schema supplied (some op.position)) op := by
  have hsame : (document.erased schema failed).operationOutlines schema
      (document.scopeValues schema supplied (some op.position))
      (op.erased document schema (failed (some op.position))) =
        document.operationOutlines schema (document.scopeValues schema supplied (some op.position)) op :=
    Selection.outlinesAll_erasedAll isSome_fragment?_erased (hfailed _) _ _
  rw [← hsame]
  cases hkept : failed (some op.position) with
  | false => simp only [scopeValues, scopeDefinitions_erased hkept]
  | true =>
    -- the scope may have other variables now, but nothing is left that needs them
    have hneeds : (op.erased document schema true).needsValues schema = false := by
      rw [needsValues_erased, Bool.not_true, Bool.and_false]
    exact Selection.outlinesAll_of_needsNone _ _ hneeds

theorem parts_erased : (document.erased schema failed).parts schema supplied = document.parts schema supplied := by
  rw [parts, operationsInOrder_erased, List.flatMap_map]
  exact List.flatMap_congr fun entry _ => operationOutlines_erased hfailed entry.2

theorem bodies_erased : (document.erased schema failed).bodies schema supplied = document.bodies schema supplied := by
  rw [bodies, fragmentsInOrder_erased, List.map_map]
  refine List.map_congr_left fun entry _ => ?_
  simp only [Function.comp_apply, fragmentOutlines, fragmentScopeDefinitions_erased]
  exact congrArg (Prod.mk entry.1) (Selection.outlinesAll_erasedAll isSome_fragment?_erased (hfailed none) _ _)

/-- A pass builds the same tree. -/
theorem builtTree_erased (a : Analyzer) :
    Pass.builtTree a schema (document.erased schema failed) supplied = Pass.builtTree a schema document supplied :=
  Pass.builtTree_congr a (parts_erased hfailed) (bodies_erased hfailed)

end

theorem builtTree_withoutNoise (a : Analyzer) (schema : Schema) (document : Document) (supplied : Variables) :
    Pass.builtTree a schema (document.withoutNoise schema) supplied = Pass.builtTree a schema document supplied :=
  builtTree_erased (fun _ h => by cases h) a

theorem builtTree_withoutPruned (a : Analyzer) (schema : Schema) (document : Document) (supplied : Variables) :
    Pass.builtTree a schema (document.withoutPruned schema supplied) supplied =
      Pass.builtTree a schema document supplied :=
  builtTree_erased (fun _ hfails => Option.isNone_iff_eq_none.mp hfails) a

/-- Without noise every scope needs its variables as it did. -/
theorem built_errors_withoutNoise (a : Analyzer) (schema : Schema) (document : Document) (supplied : Variables) :
    (Pass.built a schema (document.withoutNoise schema) supplied).errors =
      (Pass.built a schema document supplied).errors := by
  refine Pass.built_errors_congr ?_ fragmentScopeDefinitions_erased ?_ a supplied
  · rw [operationsInOrder_erased]
    refine List.forall₂_map_right_iff.mpr (List.forall₂_same.mpr fun entry _ => ⟨rfl, rfl, ?_⟩)
    exact (needsValues_erased entry.2).trans (Bool.and_true _)
  · rw [fragmentsNeedValues, fragmentsInOrder_erased, List.any_map]
    refine List.any_congr rfl fun entry => ?_
    exact (Selection.needsValuesAll_erasedAll _ _).trans (Bool.and_true _)

end Document

/-! ## Fragments that are not reached -/

namespace Document

variable {document : Document} {schema : Schema} {supplied : Variables} {defaultComplexity : Size}

theorem Reached.spreads {f g : String} (h : document.Reached f) (hg : document.Spreads f g) : document.Reached g := by
  obtain ⟨op, hop, first, hfirst, hpath⟩ := h
  exact ⟨op, hop, first, hfirst, hpath.tail hg⟩

/-- Only names are reached that have what all have that operations spread, and all that
    fragments spread which have it. -/
theorem Reached.of_closed {P : String → Prop}
    (hoperations : ∀ op ∈ document.operations.values, ∀ f ∈ Selection.spreadsAll op.selections, P f)
    (hfragments : ∀ entry ∈ document.fragments.entries, P entry.1 → ∀ f ∈ Selection.spreadsAll entry.2.selections, P f)
    {f : String} (h : document.Reached f) : P f := by
  obtain ⟨op, hop, first, hfirst, hpath⟩ := h
  induction hpath with
  | refl => exact hoperations op hop first hfirst
  | tail _ hs ih =>
    obtain ⟨fragment, hfragment, hg⟩ := hs
    exact hfragments _ (document.fragments.get?_eq_some_iff.mp hfragment) ih _ hg

/-- What is reached without what is erased was reached before. -/
theorem reached_of_erased {failed : VariableScope → Bool} {f : String}
    (h : (document.erased schema failed).Reached f) : document.Reached f := by
  refine h.of_closed (fun op hop g hg => ?_) fun entry hentry hf g hg => ?_
  · obtain ⟨entry', hentry', rfl⟩ := List.mem_map.mp hop
    obtain ⟨entry, hentry, rfl⟩ := List.mem_map.mp hentry'
    exact ⟨entry.2, List.mem_map_of_mem hentry, g, Selection.spreadsAll_erasedAll _ _ hg, .refl⟩
  · obtain ⟨original, horiginal, rfl⟩ := List.mem_map.mp hentry
    refine hf.spreads ⟨original.2, ?_, Selection.spreadsAll_erasedAll _ _ hg⟩
    exact document.fragments.get?_eq_some_iff.mpr horiginal

section

variable {keep : String → Bool} (hkeep : ∀ f, document.Reached f → keep f = true)
include hkeep

theorem fragment?_keeping {f : String} (hf : document.Reached f) :
    (document.keeping keep).fragment? f = document.fragment? f := by
  have hget : (document.keeping keep).fragment? f = if keep f then document.fragment? f else none :=
    Table.get?_restrict keep document.fragments f
  rw [hget, if_pos (hkeep f hf)]

/-- What is reached costs the same: it spreads nothing that is not. -/
theorem spreadCost_keeping (depth : Nat) {f : String} (hf : document.Reached f) :
    (document.keeping keep).spreadCost schema defaultComplexity supplied depth f =
      document.spreadCost schema defaultComplexity supplied depth f := by
  induction depth generalizing f with
  | zero => rw [spreadCost, spreadCost, fragment?_keeping hkeep hf]
  | succ depth ih =>
    rw [spreadCost, spreadCost, fragment?_keeping hkeep hf]
    cases hfragment : document.fragment? f with
    | none => rfl
    | some fragment =>
      refine (costRelation_eq defaultComplexity).selections _ _ fun g hg => ?_
      exact ih (hf.spreads ⟨fragment, hfragment, hg⟩)

theorem partsCost_keeping (depth : Nat) :
    (document.keeping keep).partsCost schema defaultComplexity supplied depth =
      document.partsCost schema defaultComplexity supplied depth := by
  have hP := costRelation_eq defaultComplexity
  rw [partsCost_eq, partsCost_eq]
  refine hP.sum (List.forall₂_same.mpr fun entry hentry => hP.selections _ _ fun f hf => ?_)
  have hop : entry.2 ∈ document.operations.values :=
    document.operationsInOrder_perm.mem_iff.mp (List.mem_map_of_mem hentry)
  exact spreadCost_keeping hkeep depth ⟨entry.2, hop, f, hf, .refl⟩

/-- Fragments that are not reached add nothing to what is published. -/
theorem complexity_keeping (e : Execution) :
    (validate schema (document.keeping keep) e).execution.complexity =
      (validate schema document e).execution.complexity := by
  cases ha : schema.analyzer with
  | none => rw [validate_of_no_analyzer ha, validate_of_no_analyzer ha]
  | some a =>
    ext c
    simp only [complexity_eq_parts_iff ha, partsCost_keeping hkeep]

end

end Document

/-! ## What is published and reported -/

/-- Erasing noise, and spreads of fragments there are none of, changes nothing about what a
    pass publishes and reports. Erasing as well the sized fields of scopes that fail, and any
    fragments that are not reached then, changes nothing about what it publishes. The scopes
    that a pass fails to coerce are among those that fail, and what is reached then was
    reached before. -/
theorem erasure_published (schema : Schema) (document : Document) (e : Execution) :
    (validate schema (document.withoutNoise schema) e).execution.complexity =
        (validate schema document e).execution.complexity ∧
      (validate schema (document.withoutNoise schema) e).execution.errors =
        (validate schema document e).execution.errors ∧
      (∀ keep : String → Bool, (∀ f, (document.withoutPruned schema e.supplied).Reached f → keep f = true) →
        (validate schema ((document.withoutPruned schema e.supplied).keeping keep) e).execution.complexity =
          (validate schema document e).execution.complexity) ∧
      (∀ a scope, (Pass.built a schema document e.supplied).coerced.get? scope = some none →
        document.scopeFails schema e.supplied scope = true) ∧
      ∀ f, (document.withoutPruned schema e.supplied).Reached f → document.Reached f := by
  cases ha : schema.analyzer with
  | none =>
    have hsame : ∀ document', (validate schema document' e).execution = e :=
      fun document' => validate_of_no_analyzer ha document' e
    simp only [hsame]
    exact ⟨trivial, trivial, fun _ _ => trivial, fun _ _ => Document.scopeFails_of_built,
      fun _ => Document.reached_of_erased⟩
  | some a =>
    have hnoise := document.builtTree_withoutNoise a schema e.supplied
    have hpruned := document.builtTree_withoutPruned a schema e.supplied
    refine ⟨complexity_of_builtTree ha hnoise, ?_, fun keep hkeep => ?_, fun _ _ => Document.scopeFails_of_built,
      fun _ => Document.reached_of_erased⟩
    · refine errors_of_builtTree ha hnoise (document.built_errors_withoutNoise a schema e.supplied) fun f => ?_
      rw [Document.withoutNoise, Document.fragment?_erased, Option.map_map]
      rfl
    · rw [Document.complexity_keeping hkeep, complexity_of_builtTree ha hpruned]

/-- `A` selects much that cannot count, as its variable is not supplied, and `B` asks for
    items. The rest is spread below what cannot count, and by itself. -/
def cluttered : Document where
  operations := .ofPairs [
    (some "A", ⟨⟨1, 1⟩, .query, [⟨⟨1, 9⟩, "n", .named "Int" false, none, []⟩], [],
      [.field ⟨none, "__typename", [], []⟩ [],
        .field ⟨none, "unknown", [], []⟩ [.spread "Rest" []],
        .field ⟨none, "items", [("first", .var "n")], []⟩ [.spread "Rest" []],
        .inline (some "Nowhere") [] [.field ⟨none, "name", [], []⟩ []],
        .spread "Missing" [],
        .spread "Entry" []]⟩),
    (some "B", ⟨⟨2, 1⟩, .query, [], [],
      [.field ⟨none, "items", [("first", .number (.ofSize 2))], []⟩ [.spread "Entry" []]]⟩)]
  fragments := .ofPairs [
    ("Entry", ⟨⟨3, 1⟩, "Item", [], [.field ⟨none, "name", [], []⟩ [], .field ⟨none, "__typename", [], []⟩ []]⟩),
    ("Rest", ⟨⟨4, 1⟩, "Item", [], [.spread "Rest" []]⟩)]

/-- The entry costs 2, once for itself and once in each of 2 items of 1. Nothing else is left
    to be reached. -/
theorem erasure_published_cluttered :
    (validate shop (cluttered.withoutNoise shop) (.ofVariables ∅)).execution.complexity = some ⟨8, 10⟩ ∧
      (validate shop (cluttered.withoutNoise shop) (.ofVariables ∅)).execution.errors =
        [⟨.missingVariable "n" (.named "Int" false), [⟨1, 9⟩]⟩] ∧
      (Pass.built (.ofMax 10) shop cluttered ∅).coerced.get? (some ⟨1, 1⟩) = some none ∧
      cluttered.scopeFails shop ∅ (some ⟨1, 1⟩) = true ∧
      (∀ f, (cluttered.withoutPruned shop ∅).Reached f → f = "Entry") ∧ cluttered.Reached "Rest" ∧
      (validate shop ((cluttered.withoutPruned shop ∅).keeping (· = "Entry")) (.ofVariables ∅)).execution.complexity =
        some ⟨8, 10⟩ := by
  have hpublished : (validate shop cluttered (.ofVariables ∅)).execution.complexity = some ⟨8, 10⟩ := by decide +kernel
  have hreported : (validate shop cluttered (.ofVariables ∅)).execution.errors =
      [⟨.missingVariable "n" (.named "Int" false), [⟨1, 9⟩]⟩] := by decide +kernel
  have hkeep : ∀ f, (cluttered.withoutPruned shop ∅).Reached f → f = "Entry" := by
    have hoperations : ∀ op ∈ (cluttered.withoutPruned shop ∅).operations.values,
        ∀ f ∈ Selection.spreadsAll op.selections, f = "Entry" := by decide +kernel
    have hfragments : ∀ entry ∈ (cluttered.withoutPruned shop ∅).fragments.entries, entry.1 = "Entry" →
        ∀ f ∈ Selection.spreadsAll entry.2.selections, f = "Entry" := by decide +kernel
    exact fun f => Document.Reached.of_closed hoperations hfragments
  have hspread : ∃ op ∈ cluttered.operations.values, "Rest" ∈ Selection.spreadsAll op.selections := by decide +kernel
  have hrest : cluttered.Reached "Rest" := by
    obtain ⟨op, hop, hmem⟩ := hspread
    exact ⟨op, hop, "Rest", hmem, .refl⟩
  have hcoerced : (Pass.built (.ofMax 10) shop cluttered ∅).coerced.get? (some ⟨1, 1⟩) = some none := by decide +kernel
  obtain ⟨hcomplexity, herrors, hpruned, hfails, -⟩ := erasure_published shop cluttered (.ofVariables ∅)
  have hsupplied : (Execution.ofVariables ∅).supplied = ∅ := rfl
  rw [hsupplied] at hpruned hfails
  refine ⟨?_, ?_, hcoerced, hfails _ _ hcoerced, hkeep, hrest, ?_⟩
  · rw [hcomplexity, hpublished]
  · rw [herrors, hreported]
  · rw [hpruned _ fun f hf => decide_eq_true (hkeep f hf), hpublished]

end QueryCost
