/-
  QueryCost.Proofs.Pass.Reuse — an execution that is used again.

  A pass sees nothing of an execution but its variables (`validate_congr`), no validation
  changes them (`supplied_validate`), and what a pass reports and publishes takes the place
  of what the pass before it did. A validation that cannot begin touches nothing.

  - `reuse_forgets`: after any number of validations the variables are those it began with,
    and the errors and the complexity are those of the last one that had an analyzer, run
    with a new execution.
-/

import QueryCost.Proofs.Pass.Report

namespace QueryCost

variable {schema : Schema} {document : Document}

/-- One validation after the other with the same execution. -/
def Execution.validateAll (e : Execution) (calls : List (Schema × Document)) : Execution :=
  calls.foldl (fun e call => (validate call.1 call.2 e).execution) e

/-- The last of the calls whose schema has an analyzer. -/
def lastAnalyzed (calls : List (Schema × Document)) : Option (Schema × Document) :=
  (calls.filter (·.1.analyzer.isSome)).getLast?

/-! ## One validation -/

theorem failure_of_no_analyzer (ha : schema.analyzer = none) (document : Document) (e : Execution) :
    (validate schema document e).failure = some .missingAnalyzer := by
  simp only [validate, ha]

theorem supplied_validate (schema : Schema) (document : Document) (e : Execution) :
    (validate schema document e).execution.supplied = e.supplied := by
  cases ha : schema.analyzer with
  | none => rw [validate_of_no_analyzer ha]
  | some a =>
    simp only [validate, ha]
    cases (runPass a schema document e.supplied).result <;> rfl

theorem execution_ext {e e' : Execution} (hsupplied : e'.supplied = e.supplied) (herrors : e'.errors = e.errors)
    (hcomplexity : e'.complexity = e.complexity) : e' = e := by
  cases e
  cases e'
  cases hsupplied
  cases herrors
  cases hcomplexity
  rfl

/-- Two executions with the same variables come out of a pass the same. -/
theorem validate_congr {a : Analyzer} (ha : schema.analyzer = some a) (document : Document) {e e' : Execution}
    (h : e'.supplied = e.supplied) : validate schema document e' = validate schema document e := by
  have hreset : e'.reset = e.reset := by rw [Execution.reset, Execution.reset, h]
  simp only [validate, ha, h, hreset]

/-! ## Any number of validations -/

theorem validateAll_concat (e : Execution) (calls : List (Schema × Document)) (call : Schema × Document) :
    e.validateAll (calls ++ [call]) = (validate call.1 call.2 (e.validateAll calls)).execution := by
  rw [Execution.validateAll, List.foldl_append]
  rfl

theorem supplied_validateAll (e : Execution) (calls : List (Schema × Document)) :
    (e.validateAll calls).supplied = e.supplied := by
  induction calls using List.reverseRecOn with
  | nil => rfl
  | append_singleton calls call ih => rw [validateAll_concat, supplied_validate, ih]

theorem lastAnalyzed_concat_none {call : Schema × Document} (ha : call.1.analyzer = none)
    (calls : List (Schema × Document)) : lastAnalyzed (calls ++ [call]) = lastAnalyzed calls := by
  simp [lastAnalyzed, List.filter_append, ha]

theorem lastAnalyzed_concat_some {call : Schema × Document} {a : Analyzer} (ha : call.1.analyzer = some a)
    (calls : List (Schema × Document)) : lastAnalyzed (calls ++ [call]) = some call := by
  simp [lastAnalyzed, List.filter_append, ha]

/-- Only the last call that has an analyzer leaves anything. -/
theorem validateAll_eq (e : Execution) (calls : List (Schema × Document)) :
    e.validateAll calls =
      ((lastAnalyzed calls).map fun call => (validate call.1 call.2 e).execution).getD e := by
  induction calls using List.reverseRecOn with
  | nil => rfl
  | append_singleton calls call ih =>
    rw [validateAll_concat]
    cases ha : call.1.analyzer with
    | none => rw [validate_of_no_analyzer ha, lastAnalyzed_concat_none ha, ih]
    | some a =>
      -- what the calls before it have left is forgotten, but for the variables
      rw [validate_congr ha call.2 (supplied_validateAll e calls), lastAnalyzed_concat_some ha]
      rfl

/-- After any calls the variables are the same, a call without an analyzer fails and changes
    nothing, and all that is left is what the last call with an analyzer leaves a new
    execution with. -/
theorem reuse_forgets (supplied : Variables) (calls : List (Schema × Document)) :
    ((Execution.ofVariables supplied).validateAll calls).supplied = supplied ∧
      (∀ schema document, schema.analyzer = none →
        (validate schema document ((Execution.ofVariables supplied).validateAll calls)).failure =
            some .missingAnalyzer ∧
          (validate schema document ((Execution.ofVariables supplied).validateAll calls)).execution =
            (Execution.ofVariables supplied).validateAll calls) ∧
      (Execution.ofVariables supplied).validateAll calls =
        ((lastAnalyzed calls).map fun call =>
          (validate call.1 call.2 (.ofVariables supplied)).execution).getD (.ofVariables supplied) := by
  refine ⟨supplied_validateAll _ calls, fun schema document ha => ⟨?_, ?_⟩, validateAll_eq _ calls⟩
  · exact failure_of_no_analyzer ha document _
  · exact validate_of_no_analyzer ha document _

/-- A limit that is exceeded, then a cycle, then a schema without an analyzer: nothing is
    left of the limit and of what was published with it, and the cycle stays. -/
theorem reuse_forgets_flood :
    let unanalyzed : Schema := { shop with analyzer := none }
    let e := (Execution.ofVariables ∅).validateAll [(shop, flood), (shop, ring)]
    unanalyzed.analyzer = none ∧ (validate unanalyzed flood e).failure = some .missingAnalyzer ∧
      (validate unanalyzed flood e).execution = ⟨∅, [⟨.cycle ["B", "C", "B"], [⟨3, 1⟩]⟩], none⟩ := by
  intro unanalyzed e
  have ha : unanalyzed.analyzer = none := rfl
  have hring : (validate shop ring (.ofVariables ∅)).execution =
      ⟨∅, [⟨.cycle ["B", "C", "B"], [⟨3, 1⟩]⟩], none⟩ := by decide +kernel
  obtain ⟨-, hmissing, hlast⟩ := reuse_forgets ∅ [(shop, flood), (shop, ring)]
  obtain ⟨hfailure, hunchanged⟩ := hmissing unanalyzed flood ha
  exact ⟨ha, hfailure, hunchanged.trans (hlast.trans hring)⟩

end QueryCost
