/-
  QueryCost.Proofs.Pass.Scope — the variables of a scope during a pass.

  A pass coerces the variables of a scope when a field first needs them. What a field sees
  does not depend on when that is: the values of the scope are the same before and after
  (`valuesSeen`). At most they are kept for the scope and the errors about them reported
  (`Kept`), and nothing is built (`Quiet`).

  - `isVariable_of_coerceVariables`: all that coercion reports is about variables.
  - `scopeValues_spec`, `multipliers_spec`: the values and the list sizes a field gets are
    those of the scope, and getting them is quiet.
-/

import QueryCost.Proofs.DirectCost

namespace QueryCost

/-- The error is about a variable. -/
def Cause.isVariable : Cause → Bool
  | .nullVariable _ _ | .invalidVariable _ _ _ | .missingVariable _ _ => true
  | .limit _ | .cycle _ | .document _ | .missingAnalyzer => false

theorem VariableDefinition.isVariable_of_coerce {d : VariableDefinition} {supplied : Variables} {cause : Cause}
    (h : d.coerce supplied = .error cause) : cause.isVariable = true := by
  unfold coerce at h
  repeat' split at h
  all_goals
    cases h
    try rfl

theorem isVariable_of_coerceVariables {definitions : List VariableDefinition} {supplied : Variables}
    {errors : List RuleError} (h : coerceVariables definitions supplied = .error errors) :
    ∀ e ∈ errors, e.cause.isVariable = true := by
  have hfold : ∀ (definitions : List VariableDefinition) (sofar : Variables × List RuleError),
      (∀ e ∈ sofar.2, e.cause.isVariable = true) →
      ∀ e ∈ (definitions.foldl (coerceNext supplied) sofar).2, e.cause.isVariable = true := by
    intro definitions
    induction definitions with
    | nil => exact fun _ hsofar => hsofar
    | cons d rest ih =>
      intro sofar hsofar
      refine ih _ ?_
      unfold coerceNext
      split
      · rename_i cause hcause
        intro e he
        rcases List.mem_append.mp he with he | he
        · exact hsofar e he
        · rw [List.mem_singleton.mp he]
          exact VariableDefinition.isVariable_of_coerce hcause
      · exact hsofar
      · exact hsofar
  unfold coerceVariables at h
  simp only at h
  split at h
  · cases h
  · cases h
    exact hfold definitions (∅, []) nofun

/-! ## Errors that are reported once -/

/-- The errors with one more, unless it is among them. -/
def addNew (errors : List RuleError) (e : RuleError) : List RuleError := if e ∈ errors then errors else errors ++ [e]

theorem mem_foldl_addNew {errors before : List RuleError} {e : RuleError} (h : e ∈ errors.foldl addNew before) :
    e ∈ before ∨ e ∈ errors := by
  induction errors generalizing before with
  | nil => exact .inl h
  | cons e' rest ih =>
    rcases ih h with h | h
    · unfold addNew at h
      split at h
      · exact .inl h
      · rcases List.mem_append.mp h with h | h
        · exact .inl h
        · exact .inr (List.mem_cons.mpr (.inl (List.mem_singleton.mp h)))
    · exact .inr (List.mem_cons_of_mem _ h)

namespace Pass

variable {document : Document} {supplied : Variables} {s s' s'' : Pass}

/-! ## What is kept -/

/-- The values the scope has, coerced already or not. -/
def valuesSeen (s : Pass) (document : Document) (supplied : Variables) : Option Variables :=
  match s.coerced.get? s.scope with
  | some values => values
  | none => coercedValues (s.scopeDefinitions document) supplied

/-- At most the variables of the scope are coerced, and errors about them reported. -/
structure Kept (document : Document) (supplied : Variables) (s s' : Pass) : Prop where
  operations : s'.operations = s.operations
  result : s'.result = s.result
  values : s'.valuesSeen document supplied = s.valuesSeen document supplied
  elsewhere : ∀ k, k ≠ s.scope → s'.coerced.get? k = s.coerced.get? k
  errors : ∀ e ∈ s'.errors, e ∈ s.errors ∨ e.cause.isVariable = true

theorem scope_of_operations (h : s'.operations = s.operations) : s'.scope = s.scope := by simp only [scope, h]

theorem Kept.refl (document : Document) (supplied : Variables) (s : Pass) : Kept document supplied s s :=
  ⟨rfl, rfl, rfl, fun _ _ => rfl, fun _ h => .inl h⟩

theorem Kept.trans (h : Kept document supplied s s') (h' : Kept document supplied s' s'') :
    Kept document supplied s s'' := by
  refine ⟨h'.operations.trans h.operations, h'.result.trans h.result, h'.values.trans h.values, ?_, ?_⟩
  · intro k hk
    have hk' : k ≠ s'.scope := by rw [scope_of_operations h.operations]; exact hk
    exact (h'.elsewhere k hk').trans (h.elsewhere k hk)
  · intro e he
    rcases h'.errors e he with he | he
    · exact h.errors e he
    · exact .inr he

/-- A state with the same variables and errors. -/
theorem Kept.of_eq (hoperations : s'.operations = s.operations) (hresult : s'.result = s.result)
    (hcoerced : s'.coerced = s.coerced) (herrors : s'.errors = s.errors) : Kept document supplied s s' := by
  refine ⟨hoperations, hresult, ?_, fun k _ => by rw [hcoerced], fun e he => .inl (herrors ▸ he)⟩
  unfold valuesSeen scopeDefinitions
  rw [hcoerced, scope_of_operations hoperations, hoperations]

/-- Nothing is built. -/
structure Quiet (document : Document) (supplied : Variables) (s s' : Pass) : Prop where
  kept : Kept document supplied s s'
  tree : s'.tree = s.tree
  frames : s'.frames = s.frames

theorem Quiet.refl (document : Document) (supplied : Variables) (s : Pass) : Quiet document supplied s s :=
  ⟨.refl document supplied s, rfl, rfl⟩

theorem Quiet.note (h : Quiet document supplied s s') (e : Event) : Quiet document supplied s (s'.note e) :=
  ⟨⟨h.kept.operations, h.kept.result, h.kept.values, h.kept.elsewhere, h.kept.errors⟩, h.tree, h.frames⟩

/-! ## Variables -/

theorem foldl_reportNew (errors : List RuleError) (s : Pass) :
    errors.foldl reportNew s = { s with errors := errors.foldl addNew s.errors } := by
  induction errors generalizing s with
  | nil => rfl
  | cons e rest ih =>
    have hfirst : s.reportNew e = { s with errors := addNew s.errors e } := by
      unfold reportNew addNew
      split <;> rfl
    rw [List.foldl_cons, hfirst, ih, List.foldl_cons]

/-- What the coercion of a scope leaves, whatever its outcome. -/
theorem quiet_coerced {values : Option Variables} {errors : List RuleError} {log : List Event}
    (hvalues : values = s.valuesSeen document supplied)
    (herrors : ∀ e ∈ errors, e ∈ s.errors ∨ e.cause.isVariable = true) :
    Quiet document supplied s
      { s with coerced := s.coerced.insert s.scope values, errors := errors, log := log } := by
  refine ⟨⟨rfl, rfl, ?_, fun k hk => ?_, herrors⟩, rfl, rfl⟩
  · show (match (s.coerced.insert s.scope values).get? s.scope with
      | some values => values
      | none => coercedValues (s.scopeDefinitions document) supplied) = s.valuesSeen document supplied
    rw [Table.get?_insert, if_pos rfl]
    exact hvalues
  · show (s.coerced.insert s.scope values).get? k = s.coerced.get? k
    rw [Table.get?_insert, if_neg (Ne.symm hk)]

theorem scopeValues_spec (p : Place) (s : Pass) :
    (s.scopeValues p).1 = s.valuesSeen p.document p.supplied ∧ Quiet p.document p.supplied s (s.scopeValues p).2 := by
  cases hseen : s.coerced.get? s.scope with
  | some values =>
    simp only [scopeValues, valuesSeen, hseen]
    exact ⟨trivial, .refl _ _ s⟩
  | none =>
    have hvalues : s.valuesSeen p.document p.supplied = coercedValues (s.scopeDefinitions p.document) p.supplied := by
      simp only [valuesSeen, hseen]
    unfold coercedValues at hvalues
    cases hcoerce : coerceVariables (s.scopeDefinitions p.document) p.supplied with
    | ok values =>
      rw [hcoerce] at hvalues
      simp only [scopeValues, hseen, hcoerce]
      exact ⟨hvalues.symm, quiet_coerced hvalues.symm fun _ h => .inl h⟩
    | error errors =>
      rw [hcoerce] at hvalues
      simp only [scopeValues, hseen, hcoerce, foldl_reportNew]
      refine ⟨hvalues.symm, quiet_coerced hvalues.symm fun e he => ?_⟩
      exact (mem_foldl_addNew he).imp_right (isVariable_of_coerceVariables hcoerce e)

theorem multipliers_spec (p : Place) (field : Field) (entry : FieldEntry) (cost : Option DeclaredCost) (s : Pass) :
    (s.multipliers p field entry cost).1 = listSizes field entry cost (s.valuesSeen p.document p.supplied) ∧
      Quiet p.document p.supplied s (s.multipliers p field entry cost).2 := by
  unfold multipliers listSizes
  cases cost.bind (·.sizeArguments?) with
  | none => exact ⟨rfl, .refl _ _ s⟩
  | some names =>
    obtain ⟨hvalues, hquiet⟩ := scopeValues_spec p s
    rw [← hvalues]
    generalize s.scopeValues p = r at hquiet
    obtain ⟨values, s'⟩ := r
    cases values with
    | none => exact ⟨rfl, hquiet⟩
    | some values => exact ⟨rfl, hquiet⟩

end Pass

end QueryCost
