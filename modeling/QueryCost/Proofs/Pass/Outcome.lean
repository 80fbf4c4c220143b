/-
  QueryCost.Proofs.Pass.Outcome — how validations end, and how requests are answered.

  A pass first reports what is wrong with variables, and then at most one error more: the
  limit that was exceeded, or the cycle that kept it from a total (`Ended`,
  `validate_ended`). So the last error says whether a complexity was published, and the
  complexity says whether the limit is among the errors.

  - `check_closed`: a request is answered by a complexity only when nothing at all was
    wrong with it and the complexity is within the limit. Every other request is answered
    by errors, and by at least one.
-/

import QueryCost.Proofs.Pass.Report

namespace QueryCost

variable {a : Analyzer} {schema : Schema}

/-! ## The end of a validation -/

/-- What is published and reported at the end, when `errors` were reported about variables. -/
inductive Ended (max : Size) (errors : List RuleError) : Option Complexity → List RuleError → Prop
  | within {v : Size} : v ≤ max → Ended max errors (some ⟨v, max⟩) errors
  | exceeded {v : Size} : max < v → Ended max errors (some ⟨v, max⟩) (errors ++ [⟨.limit ⟨v, max⟩, []⟩])
  | cyclic {fragments : List String} {position : Position} :
      Ended max errors none (errors ++ [⟨.cycle fragments, [position]⟩])

theorem validate_ended (ha : schema.analyzer = some a) (document : Document) (e : Execution) :
    Ended a.maxComplexity (Pass.built a schema document e.supplied).errors
      (validate schema document e).execution.complexity (validate schema document e).execution.errors := by
  cases hr : ((Pass.builtTree a schema document e.supplied).fold 0 a.defaultComplexity).1 with
  | total v =>
    obtain ⟨hcomplexity, herrors⟩ := validate_of_total ha hr
    rw [hcomplexity, herrors]
    unfold evaluate
    split
    · rename_i hlt
      exact .exceeded hlt
    · rename_i hle
      simp only [Verdict.error?, Option.toList_none, List.append_nil]
      exact .within (Nat.le_of_not_lt hle)
  | cycle fragments =>
    obtain ⟨hcomplexity, fragment, -, herrors⟩ := validate_of_cycle ha hr
    rw [hcomplexity, herrors]
    exact .cyclic
  | unfinished =>
    have hgrounded := Pass.builtTree_grounded a schema document e.supplied
    exact absurd hr (CostTree.fold_finished hgrounded _)

theorem Cause.isLimit_of_isVariable {cause : Cause} (h : cause.isVariable = true) : cause.isLimit = false := by
  cases cause <;> simp [isVariable, isLimit] at h ⊢

theorem Cause.isCycle_of_isVariable {cause : Cause} (h : cause.isVariable = true) : cause.isCycle = false := by
  cases cause <;> simp [isVariable, isCycle] at h ⊢

namespace Ended

variable {max : Size} {errors reported : List RuleError} {published : Option Complexity}

/-- At most one error comes after those about variables, about a cycle or the limit. -/
theorem exists_last (h : Ended max errors published reported) :
    ∃ last : Option RuleError, reported = errors ++ last.toList ∧
      ∀ e ∈ last, e.cause.isCycle = true ∨ e.cause.isLimit = true := by
  cases h with
  | within _ => exact ⟨none, (List.append_nil errors).symm, nofun⟩
  | exceeded _ => exact ⟨some _, rfl, by rintro _ ⟨⟩; exact .inr rfl⟩
  | cyclic => exact ⟨some _, rfl, by rintro _ ⟨⟩; exact .inl rfl⟩

/-- The error at the end is none of those about variables. -/
theorem nodup (hvariable : ∀ e ∈ errors, e.cause.isVariable = true) (hnodup : errors.Nodup)
    (h : Ended max errors published reported) : reported.Nodup := by
  obtain ⟨last, rfl, hlast⟩ := h.exists_last
  refine List.Nodup.append hnodup (by cases last <;> simp) fun e he hmem => ?_
  have hvariable := hvariable e he
  rcases hlast e (Option.mem_toList.mp hmem) with hcycle | hlimit
  · rw [Cause.isCycle_of_isVariable hvariable] at hcycle
    cases hcycle
  · rw [Cause.isLimit_of_isVariable hvariable] at hlimit
    cases hlimit

/-- A cycle is reported exactly when nothing is published. -/
theorem exists_cycle_iff (hvariable : ∀ e ∈ errors, e.cause.isVariable = true)
    (h : Ended max errors published reported) :
    (∃ e ∈ reported, e.cause.isCycle = true) ↔ published = none := by
  have hnot : ∀ e ∈ errors, e.cause.isCycle = false :=
    fun e he => Cause.isCycle_of_isVariable (hvariable e he)
  cases h with
  | within _ => simpa using hnot
  | exceeded _ =>
    simp only [reduceCtorEq, iff_false]
    rintro ⟨e, he, hcycle⟩
    rcases List.mem_append.mp he with he | he
    · rw [hnot e he] at hcycle
      cases hcycle
    · rw [List.mem_singleton.mp he] at hcycle
      cases hcycle
  | cyclic => exact ⟨fun _ => rfl, fun _ => ⟨_, List.mem_append_right _ (List.mem_singleton_self _), rfl⟩⟩

/-- Nothing is published exactly when the last error is a cycle. -/
theorem none_iff (hvariable : ∀ e ∈ errors, e.cause.isVariable = true) (h : Ended max errors published reported) :
    published = none ↔ ∃ e, reported.getLast? = some e ∧ e.cause.isCycle = true := by
  constructor
  · intro hnone
    cases h with
    | within _ => cases hnone
    | exceeded _ => cases hnone
    | cyclic => exact ⟨_, List.getLast?_concat, rfl⟩
  · rintro ⟨e, hlast, hcycle⟩
    exact (h.exists_cycle_iff hvariable).mp ⟨e, List.mem_of_getLast? hlast, hcycle⟩

/-- The one error about the limit there can be, by what is published. -/
theorem filter_isLimit (hvariable : ∀ e ∈ errors, e.cause.isVariable = true)
    (h : Ended max errors published reported) :
    reported.filter (·.cause.isLimit) =
      (published.filter fun c => c.max < c.current).toList.map fun c => ⟨.limit c, []⟩ := by
  have hnone : errors.filter (·.cause.isLimit) = [] := by
    rw [List.filter_eq_nil_iff]
    intro e he
    simp [Cause.isLimit_of_isVariable (hvariable e he)]
  cases h with
  | within hle => simp [hnone, not_lt_of_ge hle]
  | exceeded hlt =>
    rw [List.filter_append, hnone, Option.filter_some_pos (by simpa using hlt)]
    rfl
  | cyclic =>
    rw [List.filter_append, hnone]
    rfl

/-- The errors about variables are those reported before the end. -/
theorem filter_isVariable (hvariable : ∀ e ∈ errors, e.cause.isVariable = true)
    (h : Ended max errors published reported) : reported.filter (·.cause.isVariable) = errors := by
  have hall : errors.filter (·.cause.isVariable) = errors := List.filter_eq_self.mpr hvariable
  cases h with
  | within _ => exact hall
  | exceeded _ =>
    rw [List.filter_append, hall]
    exact List.append_nil _
  | cyclic =>
    rw [List.filter_append, hall]
    exact List.append_nil _

/-- A limit that is exceeded is the last error. -/
theorem last_of_exceeded (h : Ended max errors published reported) {c : Complexity} (hc : published = some c)
    (hexceeded : c.max < c.current) : reported.getLast? = some ⟨.limit c, []⟩ := by
  cases h with
  | within hle =>
    cases hc
    exact absurd hexceeded (Nat.not_lt.mpr hle)
  | exceeded _ =>
    cases hc
    exact List.getLast?_concat
  | cyclic => cases hc

/-- Without a single error something is published, and it is within the limit. -/
theorem within_of_nil (h : Ended max errors published []) : ∃ v, published = some ⟨v, max⟩ ∧ v ≤ max := by
  generalize hreported : ([] : List RuleError) = reported at h
  cases h with
  | within hle => exact ⟨_, rfl, hle⟩
  | exceeded _ => exact absurd hreported.symm (List.append_ne_nil_of_right_ne_nil _ (List.cons_ne_nil _ _))
  | cyclic => exact absurd hreported.symm (List.append_ne_nil_of_right_ne_nil _ (List.cons_ne_nil _ _))

end Ended

/-! ## Requests -/

theorem failure_of_analyzer (ha : schema.analyzer = some a) (document : Document) (e : Execution) :
    (validate schema document e).failure = none := by
  simp only [validate, ha]
  cases (runPass a schema document e.supplied).result <;> rfl

variable {parse : String → Except DocumentError Document} {text : String} {document : Document} {supplied : Variables}

/-- A document is answered by what is published where nothing is reported, and by what is
    reported otherwise. -/
theorem checkWith_of_document (hparse : parse text = .ok document) (ha : schema.analyzer = some a)
    (supplied : Variables) :
    (∃ c, checkWith parse schema text supplied = .ok c ∧
      (validate schema document (.ofVariables supplied)).execution.errors = [] ∧
      (validate schema document (.ofVariables supplied)).execution.complexity = some c ∧
      c.max = a.maxComplexity ∧ c.current ≤ c.max) ∨
    (checkWith parse schema text supplied =
        .error (validate schema document (.ofVariables supplied)).execution.errors ∧
      (validate schema document (.ofVariables supplied)).execution.errors ≠ []) := by
  have hended := validate_ended ha document (.ofVariables supplied)
  have hfailure := failure_of_analyzer ha document (.ofVariables supplied)
  unfold checkWith
  simp only [hparse, hfailure, Execution.hasErrors]
  by_cases hnil : (validate schema document (.ofVariables supplied)).execution.errors = []
  · rw [hnil] at hended
    obtain ⟨v, hpublished, hle⟩ := hended.within_of_nil
    left
    refine ⟨⟨v, a.maxComplexity⟩, ?_, hnil, hpublished, rfl, hle⟩
    simp [hpublished, hnil]
  · right
    refine ⟨?_, hnil⟩
    cases (validate schema document (.ofVariables supplied)).execution.complexity with
    | none => rfl
    | some c => simp [hnil]

theorem checkWith_of_no_analyzer (hparse : parse text = .ok document) (ha : schema.analyzer = none) :
    checkWith parse schema text supplied = .error [⟨.missingAnalyzer, []⟩] := by
  simp only [checkWith, hparse, validate, ha]
  rfl

/-- A request is answered by a complexity exactly when its text parses, there is an analyzer,
    the pass reports nothing, and what it publishes is the answer and within the limit. Where
    it is answered by errors there is one. A validation publishes nothing exactly when its last
    error is a cycle; an exceeded limit is reported once, and last, with the numbers published. -/
theorem check_closed (parse : String → Except DocumentError Document) (schema : Schema) (text : String)
    (supplied : Variables) :
    (∀ c, checkWith parse schema text supplied = .ok c ↔
      ∃ document a, parse text = .ok document ∧ schema.analyzer = some a ∧
        (validate schema document (.ofVariables supplied)).execution.errors = [] ∧
        (validate schema document (.ofVariables supplied)).execution.complexity = some c ∧
        c.max = a.maxComplexity ∧ c.current ≤ c.max) ∧
      (∀ errors, checkWith parse schema text supplied = .error errors → errors ≠ []) ∧
      ∀ a document e, schema.analyzer = some a →
        ((validate schema document e).execution.complexity = none ↔
          ∃ err, (validate schema document e).execution.errors.getLast? = some err ∧ err.cause.isCycle = true) ∧
        ∀ c, (validate schema document e).execution.complexity = some c →
          (c.max < c.current → ∃ err,
            (validate schema document e).execution.errors.filter (·.cause.isLimit) = [err] ∧
            (validate schema document e).execution.errors.getLast? = some err ∧ err.extensions = some c) ∧
          (¬ c.max < c.current → (validate schema document e).execution.errors.filter (·.cause.isLimit) = []) := by
  refine ⟨fun c => ⟨fun h => ?_, ?_⟩, fun errors h => ?_, fun a document e ha => ?_⟩
  · cases hparse : parse text with
    | error err => simp [checkWith, hparse] at h
    | ok document =>
      cases ha : schema.analyzer with
      | none =>
        rw [checkWith_of_no_analyzer hparse ha] at h
        cases h
      | some a =>
        rcases checkWith_of_document hparse ha supplied with ⟨c', hok, hrest⟩ | ⟨herror, -⟩
        · rw [hok] at h
          cases h
          exact ⟨document, a, rfl, rfl, hrest⟩
        · rw [herror] at h
          cases h
  · rintro ⟨document, a, hparse, ha, herrors, hpublished, -, -⟩
    rcases checkWith_of_document hparse ha supplied with ⟨c', hok, -, hpublished', -⟩ | ⟨-, hnil⟩
    · rw [hpublished, Option.some.injEq] at hpublished'
      rw [hok, hpublished']
    · exact absurd herrors hnil
  · cases hparse : parse text with
    | error err =>
      simp only [checkWith, hparse, Except.error.injEq] at h
      rw [← h]
      exact List.cons_ne_nil _ _
    | ok document =>
      cases ha : schema.analyzer with
      | none =>
        rw [checkWith_of_no_analyzer hparse ha] at h
        cases h
        exact List.cons_ne_nil _ _
      | some a =>
        rcases checkWith_of_document hparse ha supplied with ⟨c, hok, -⟩ | ⟨herror, hnil⟩
        · rw [hok] at h
          cases h
        · rw [herror] at h
          cases h
          exact hnil
  · have hended := validate_ended ha document e
    have hvariable := Pass.isVariable_of_built a schema document e.supplied
    refine ⟨hended.none_iff hvariable, fun c hc => ⟨fun hexceeded => ?_, fun hwithin => ?_⟩⟩
    · refine ⟨⟨.limit c, []⟩, ?_, hended.last_of_exceeded hc hexceeded, rfl⟩
      simp [hended.filter_isLimit hvariable, hc, hexceeded]
    · simp [hended.filter_isLimit hvariable, hc, hwithin]

end QueryCost
