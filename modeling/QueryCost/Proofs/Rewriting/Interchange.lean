/-
  QueryCost.Proofs.Rewriting.Interchange — selections that may stand for one another.

  A pass sees of selections what outlines they have with the values of their scope, and
  whether they need these values. So selections that agree in both may be interchanged, in
  every definition of a document at once: the scopes have the variables they had, and the
  pass builds the same tree.

  - `Document.AlikeBy`: the same definitions in the same places, the selections of each
    related by a relation of its own.
  - `Interchangeable.builtTree_eq`, `Interchangeable.built_errors`: the tree and what is
    reported about variables are the same.
  - `Interchangeable.execution_eq`: so is all that a pass leaves.
-/

import QueryCost.Proofs.Pass.Reuse
import QueryCost.Proofs.Rewriting.Alike

namespace QueryCost

/-! ## Alike, each definition in its own way -/

/-- The same definitions in the same places, the selections of each operation related by `R`
    and those of each fragment by `Q`. -/
structure Document.AlikeBy (R : Operation → List Selection → List Selection → Prop)
    (Q : Fragment → List Selection → List Selection → Prop) (document document' : Document) : Prop where
  operations : List.Forall₂ (fun entry entry' => entry'.1 = entry.1 ∧ entry.2.Alike (R entry.2) entry'.2)
    document.operations.entries document'.operations.entries
  fragments : List.Forall₂ (fun entry entry' => entry'.1 = entry.1 ∧ entry.2.Alike (Q entry.2) entry'.2)
    document.fragments.entries document'.fragments.entries

namespace Document.AlikeBy

variable {R R' : Operation → List Selection → List Selection → Prop}
  {Q Q' : Fragment → List Selection → List Selection → Prop} {document document' : Document}

theorem imp (h : document.AlikeBy R Q document')
    (hR : ∀ op ∈ document.operations.values, ∀ selections, R op op.selections selections → R' op op.selections selections)
    (hQ : ∀ f selections, Q f f.selections selections → Q' f f.selections selections) :
    document.AlikeBy R' Q' document' := by
  constructor
  · have hmem := (List.forall₂_and_left _ _).mpr ⟨fun entry hentry => hentry, h.operations⟩
    refine hmem.imp fun entry entry' hentry => ?_
    obtain ⟨hop, hname, halike⟩ := hentry
    exact ⟨hname, { halike with selections := hR _ (List.mem_map_of_mem hop) _ halike.selections }⟩
  · refine h.fragments.imp fun entry entry' hentry => ?_
    obtain ⟨hname, halike⟩ := hentry
    exact ⟨hname, { halike with selections := hQ _ _ halike.selections }⟩

theorem alike (h : document.AlikeBy R Q document') : document.Alike (fun _ _ => True) document' := by
  constructor
  · exact h.operations.imp fun entry entry' hentry => ⟨hentry.1, { hentry.2 with selections := trivial }⟩
  · exact h.fragments.imp fun entry entry' hentry => ⟨hentry.1, { hentry.2 with selections := trivial }⟩

theorem operationsInOrder (h : document.AlikeBy R Q document') :
    List.Forall₂ (fun entry entry' => entry'.1 = entry.1 ∧ entry.2.Alike (R entry.2) entry'.2)
      document.operationsInOrder document'.operationsInOrder :=
  forall₂_sortByPosition (fun _ _ hop => hop.2.position) h.operations

theorem fragmentsInOrder (h : document.AlikeBy R Q document') :
    List.Forall₂ (fun entry entry' => entry'.1 = entry.1 ∧ entry.2.Alike (Q entry.2) entry'.2)
      document.fragmentsInOrder document'.fragmentsInOrder :=
  forall₂_sortByPosition (fun _ _ hf => hf.2.position) h.fragments

end Document.AlikeBy

namespace Document.Alike

variable {R : List Selection → List Selection → Prop} {document document' : Document}

theorem isSome_fragment? (h : document.Alike R document') (f : String) :
    (document'.fragment? f).isSome = (document.fragment? f).isSome := by
  have halike := h.fragment? f
  generalize document.fragment? f = fragment, document'.fragment? f = fragment' at halike
  cases halike <;> rfl

theorem fragmentPosition (h : document.Alike R document') (f : String) :
    (document'.fragment? f).map (·.position) = (document.fragment? f).map (·.position) := by
  have halike := h.fragment? f
  generalize document.fragment? f = fragment, document'.fragment? f = fragment' at halike
  cases halike with
  | none => rfl
  | some halike => simp only [Option.map_some, halike.position]

end Document.Alike

/-! ## Interchangeable selections -/

section

variable {document document' : Document} {schema : Schema} {values : Option Variables}

mutual

theorem Selection.outlines_of_defined (hdefined : ∀ f, (document'.fragment? f).isSome = (document.fragment? f).isSome)
    (parent : Option TypeEntry) (s : Selection) :
    s.outlines document' schema values parent = s.outlines document schema values parent := by
  cases s with
  | field f below => simp only [outlines, outlinesAll_of_defined hdefined (schema.landing parent f.name) below]
  | inline condition directives below =>
    cases condition with
    | none => exact outlinesAll_of_defined hdefined parent below
    | some t => exact outlinesAll_of_defined hdefined (schema.type? t) below
  | spread f directives => simp only [outlines, hdefined]

/-- Selections have the same outlines in documents that define the same fragments. -/
theorem Selection.outlinesAll_of_defined
    (hdefined : ∀ f, (document'.fragment? f).isSome = (document.fragment? f).isSome) (parent : Option TypeEntry)
    (selections : List Selection) :
    outlinesAll document' schema values parent selections = outlinesAll document schema values parent selections := by
  cases selections with
  | nil => rfl
  | cons s rest =>
    rw [outlinesAll, outlinesAll, outlines_of_defined hdefined parent s, outlinesAll_of_defined hdefined parent rest]

end

end

/-- The selections on a type need values alike and have the same outlines with these. -/
structure Selection.Interchangeable (schema : Schema) (document : Document) (values : Option Variables)
    (parent : Option TypeEntry) (selections selections' : List Selection) : Prop where
  needsValues : needsValuesAll schema parent selections' = needsValuesAll schema parent selections
  outlines : outlinesAll document schema values parent selections' = outlinesAll document schema values parent selections

/-- What needs no values may be interchanged with any. -/
theorem Selection.Interchangeable.of_values {schema : Schema} {document : Document} {values values' : Option Variables}
    {parent : Option TypeEntry} {selections selections' : List Selection}
    (h : Interchangeable schema document values parent selections selections')
    (hvalues : needsValuesAll schema parent selections = true → values' = values) :
    Interchangeable schema document values' parent selections selections' := by
  refine ⟨h.needsValues, ?_⟩
  cases hneeds : needsValuesAll schema parent selections with
  | true =>
    rw [hvalues hneeds]
    exact h.outlines
  | false =>
    have hneeds' := h.needsValues.trans hneeds
    rw [outlinesAll_of_needsNone parent selections' hneeds', h.outlines, outlinesAll_of_needsNone parent selections hneeds]

namespace Document

/-- The same definitions in the same places, with interchangeable selections in each scope. -/
def Interchangeable (schema : Schema) (supplied : Variables) (document document' : Document) : Prop :=
  document.AlikeBy
    (fun op => Selection.Interchangeable schema document (document.scopeValues schema supplied (some op.position))
      (schema.root? op.kind))
    (fun f => Selection.Interchangeable schema document (document.scopeValues schema supplied none)
      (schema.type? f.condition))
    document'

namespace Interchangeable

variable {schema : Schema} {supplied : Variables} {document document' : Document}

theorem sameNeeds (h : Interchangeable schema supplied document document') :
    List.Forall₂ (fun entry entry' => entry.2.SameNeeds schema entry'.2) document.operationsInOrder
      document'.operationsInOrder := by
  refine (AlikeBy.operationsInOrder h).imp fun entry entry' hentry => ?_
  obtain ⟨-, halike⟩ := hentry
  refine ⟨halike.position, halike.variableDefinitions, ?_⟩
  rw [Operation.needsValues, halike.kind]
  exact halike.selections.needsValues

theorem scopeValues_eq (h : Interchangeable schema supplied document document') (scope : VariableScope) :
    document'.scopeValues schema supplied scope = document.scopeValues schema supplied scope := by
  rw [scopeValues, scopeValues, scopeDefinitions_congr h.sameNeeds (AlikeBy.alike h).fragmentScopeDefinitions]

theorem parts_eq (h : Interchangeable schema supplied document document') :
    document'.parts schema supplied = document.parts schema supplied := by
  rw [parts, parts, List.flatMap_def, List.flatMap_def]
  refine congrArg List.flatten (map_eq_of_forall₂ (fun entry entry' hentry => ?_) (AlikeBy.operationsInOrder h))
  obtain ⟨-, halike⟩ := hentry
  rw [h.scopeValues_eq, halike.position, operationOutlines, halike.kind,
    Selection.outlinesAll_of_defined (AlikeBy.alike h).isSome_fragment?, halike.selections.outlines]
  rfl

theorem bodies_eq (h : Interchangeable schema supplied document document') :
    document'.bodies schema supplied = document.bodies schema supplied := by
  refine map_eq_of_forall₂ (fun entry entry' hentry => ?_) (AlikeBy.fragmentsInOrder h)
  obtain ⟨hname, halike⟩ := hentry
  simp only [hname, fragmentOutlines, (AlikeBy.alike h).fragmentScopeDefinitions, halike.condition]
  rw [Selection.outlinesAll_of_defined (AlikeBy.alike h).isSome_fragment?]
  exact congrArg (Prod.mk entry.1) halike.selections.outlines

theorem fragmentsNeedValues_eq (h : Interchangeable schema supplied document document') :
    document'.fragmentsNeedValues schema = document.fragmentsNeedValues schema := by
  have hfragments := AlikeBy.fragmentsInOrder h
  unfold fragmentsNeedValues
  generalize document.fragmentsInOrder = fragments, document'.fragmentsInOrder = fragments' at hfragments
  induction hfragments with
  | nil => rfl
  | cons hentry _ ih => rw [List.any_cons, List.any_cons, ih, hentry.2.condition, hentry.2.selections.needsValues]

/-- A pass builds the same tree. -/
theorem builtTree_eq (h : Interchangeable schema supplied document document') (a : Analyzer) :
    Pass.builtTree a schema document' supplied = Pass.builtTree a schema document supplied :=
  Pass.builtTree_congr a h.parts_eq h.bodies_eq

theorem built_errors (h : Interchangeable schema supplied document document') (a : Analyzer) :
    (Pass.built a schema document' supplied).errors = (Pass.built a schema document supplied).errors :=
  Pass.built_errors_congr h.sameNeeds (AlikeBy.alike h).fragmentScopeDefinitions h.fragmentsNeedValues_eq a supplied

/-- Documents with interchangeable selections come out of a pass the same. -/
theorem execution_eq {e : Execution} (h : Interchangeable schema e.supplied document document') :
    (validate schema document' e).execution = (validate schema document e).execution := by
  cases ha : schema.analyzer with
  | none => rw [validate_of_no_analyzer ha, validate_of_no_analyzer ha]
  | some a =>
    have hcomplexity := complexity_of_builtTree ha (h.builtTree_eq a)
    have herrors := errors_of_builtTree ha (h.builtTree_eq a) (h.built_errors a) (AlikeBy.alike h).fragmentPosition
    have hsupplied : (validate schema document' e).execution.supplied = (validate schema document e).execution.supplied :=
      (supplied_validate schema document' e).trans (supplied_validate schema document e).symm
    exact execution_ext hsupplied herrors hcomplexity

end Interchangeable

end Document

end QueryCost
