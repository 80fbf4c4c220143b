/-
  QueryCost.Proofs.Pass.SizedFields — the fields that have variables coerced.

  A field is sized when it resolves to the cost of a list whose sizes come from arguments.
  The fields a pass enters are written down beside it (`visits`), each with the scope it is
  in and with whether the variables of the scope had been coerced by then. A sized field in
  a scope that had not been coerced has it coerced, and nothing else does
  (`keys_enterField`).

  - `visits_accounted`: the table of a pass holds the scopes its sized fields had coerced,
    in this order, and every scope with a sized field is one of them.
  - `sized_reported`: the errors of a pass are those of the scopes that reach a sized field,
    in the order of the scopes and each where it comes first, and then at most one more,
    about a cycle or the limit. No scope is coerced twice.
-/

import QueryCost.Proofs.Pass.Outcome
import QueryCost.Proofs.Pass.Simulation
import QueryCost.Proofs.Pass.VariableErrors
import QueryCost.Proofs.Tables

namespace QueryCost

/-! ## Errors where they come first -/

theorem foldl_addNew_eq_eraseDups (errors : List RuleError) : errors.foldl addNew [] = errors.eraseDups := by
  induction errors using List.reverseRecOn with
  | nil => rfl
  | append_singleton errors e ih =>
    rw [List.foldl_concat, ih, eraseDups_concat, addNew]
    simp only [List.mem_eraseDups]

theorem nodup_foldl_addNew (errors : List RuleError) {before : List RuleError} (h : before.Nodup) :
    (errors.foldl addNew before).Nodup := by
  induction errors generalizing before with
  | nil => exact h
  | cons e rest ih =>
    apply ih
    unfold addNew
    split
    · exact h
    · rename_i hnew
      exact List.Nodup.append h (List.nodup_singleton e) (by simpa using hnew)

/-! ## Fields that are entered -/

theorem DeclaredCost.isSome_sizeArguments?_iff {cost : Option DeclaredCost} :
    (cost.bind (·.sizeArguments?)).isSome = true ↔
      ∃ complexity assumedSize names, cost = some (.list complexity assumedSize names) ∧ names.isEmpty = false := by
  rcases cost with _ | complexity | ⟨complexity, assumedSize, names⟩
  · simp
  · simp [sizeArguments?]
  · cases hnames : names.isEmpty <;> simp [sizeArguments?, hnames]

/-- A field a pass enters. -/
structure Visit where
  place : Place
  field : Field
  scope : VariableScope
  /-- The variables of the scope had been coerced before. -/
  coerced : Bool

namespace Visit

/-- The field resolves to the cost of a list whose sizes come from arguments. -/
def IsSized (v : Visit) : Prop :=
  isIntrospection v.field.name = false ∧
    ∃ t, v.place.parentType = some t ∧ t.isUnion = false ∧ (t.field? v.field.name).isSome ∧
      ∃ complexity assumedSize names,
        v.place.schema.fieldCost t v.field.name = some (.list complexity assumedSize names) ∧ names.isEmpty = false

/-- Sized are the fields whose role needs the values of the variables. -/
theorem isSized_iff (v : Visit) :
    v.IsSized ↔ (fieldRole v.place.schema (some ∅) v.place.parentType v.field).needsValues = true := by
  unfold IsSized fieldRole
  cases isIntrospection v.field.name with
  | true => simp [FieldRole.needsValues]
  | false =>
    cases v.place.parentType with
    | none => simp [FieldRole.needsValues]
    | some t =>
      cases hunion : t.isUnion with
      | true => simp [FieldRole.needsValues, hunion]
      | false =>
        cases hfield : t.field? v.field.name with
        | none => simp [FieldRole.needsValues, hunion, hfield]
        | some entry =>
          have hsizes : ∃ sizes, listSizes v.field entry (v.place.schema.fieldCost t v.field.name) (some ∅) = some sizes := by
            unfold listSizes
            split
            · exact ⟨_, rfl⟩
            · exact ⟨_, rfl⟩
          obtain ⟨sizes, hsizes⟩ := hsizes
          simp [hunion, hfield, hsizes, FieldRole.needsValues, DeclaredCost.isSome_sizeArguments?_iff]

instance (v : Visit) : Decidable v.IsSized := decidable_of_iff _ v.isSized_iff.symm

end Visit

/-- The scopes that had to be coerced for the fields entered, in the order in which they were. -/
def coercions (visits : List Visit) : List VariableScope :=
  (visits.filter fun v => v.IsSized ∧ v.coerced = false).map (·.scope)

theorem coercions_concat (visits : List Visit) (v : Visit) :
    coercions (visits ++ [v]) =
      if v.IsSized ∧ v.coerced = false then coercions visits ++ [v.scope] else coercions visits := by
  unfold coercions
  rw [List.filter_append, List.map_append]
  by_cases h : v.IsSized ∧ v.coerced = false
  · simp [h]
  · simp [h]

/-- A sized field is entered in the scope. -/
def ReachesSized (visits : List Visit) (scope : VariableScope) : Prop := ∃ v ∈ visits, v.scope = scope ∧ v.IsSized

instance (visits : List Visit) (scope : VariableScope) : Decidable (ReachesSized visits scope) :=
  inferInstanceAs (Decidable (∃ v ∈ visits, v.scope = scope ∧ v.IsSized))

namespace Pass

variable {entered : List Visit} {s s' : Pass}

/-- What is written down of a field when it is entered. -/
def visit (p : Place) (field : Field) (s : Pass) : Visit := ⟨p, field, s.scope, s.isCoerced⟩

/-- The fields a pass enters. -/
def visits (a : Analyzer) (schema : Schema) (document : Document) (supplied : Variables) : List Visit :=
  (((visitor a).recording visit).walk schema document supplied (start, [])).2

/-- A sized field has its scope coerced, unless that was done before; no other field has any
    scope coerced. -/
theorem keys_enterField (p : Place) (field : Field) (below : List Selection) (s : Pass) :
    (enterField p field below s).2.coerced.keys =
      if (visit p field s).IsSized ∧ s.isCoerced = false then s.coerced.keys ++ [s.scope] else s.coerced.keys := by
  have hsettled := (enterField_visited p field below s).settled
  have hsized := (visit p field s).isSized_iff
  rw [hsettled.keys]
  simp only [hsized, Bool.and_eq_true, Bool.not_eq_true']
  rfl

/-- The fields entered account for the scopes that are coerced. -/
structure Accounted (entered : List Visit) (s : Pass) : Prop where
  coercions : coercions entered = s.coerced.keys
  sized : ∀ v ∈ entered, v.IsSized → v.scope ∈ s.coerced.keys

namespace Accounted

theorem start : Accounted [] start := ⟨rfl, nofun⟩

theorem of_eq (h : Accounted entered s) (hcoerced : s'.coerced = s.coerced) : Accounted entered s' := by
  refine ⟨?_, ?_⟩
  · rw [hcoerced]
    exact h.coercions
  · rw [hcoerced]
    exact h.sized

theorem enterField (h : Accounted entered s) (p : Place) (field : Field) (below : List Selection) :
    Accounted (entered ++ [visit p field s]) (Pass.enterField p field below s).2 := by
  have hkeys := keys_enterField p field below s
  have hkept : ∀ scope, scope ∈ s.coerced.keys → scope ∈ (Pass.enterField p field below s).2.coerced.keys := by
    intro scope hscope
    rw [hkeys]
    split
    · exact List.mem_append_left _ hscope
    · exact hscope
  refine ⟨?_, fun v hv hsized => ?_⟩
  · rw [hkeys, ← h.coercions, coercions_concat]
    rfl
  · rcases List.mem_append.mp hv with hv | hv
    · exact hkept v.scope (h.sized v hv hsized)
    · obtain rfl := List.mem_singleton.mp hv
      cases hcoerced : s.isCoerced with
      | true => exact hkept s.scope (s.isCoerced_iff.mp hcoerced)
      | false =>
        rw [hkeys, if_pos ⟨hsized, hcoerced⟩]
        exact List.mem_append_right _ (List.mem_singleton_self s.scope)

theorem reachesSized_iff (h : Accounted entered s) (scope : VariableScope) :
    ReachesSized entered scope ↔ scope ∈ s.coerced.keys := by
  constructor
  · rintro ⟨v, hv, rfl, hsized⟩
    exact h.sized v hv hsized
  · intro hscope
    rw [← h.coercions] at hscope
    obtain ⟨v, hv, rfl⟩ := List.mem_map.mp hscope
    obtain ⟨hv, hsized⟩ := List.mem_filter.mp hv
    exact ⟨v, hv, rfl, (of_decide_eq_true hsized).1⟩

end Accounted

/-- The state with the fields written down for it, which account for what is coerced. -/
def Recorded (s : Pass) (r : Pass × List Visit) : Prop := r.1 = s ∧ Accounted r.2 s

/-- What coerces nothing leaves the account as it is. -/
theorem keepsRecorded (document : Document) (f : Place → Pass → Pass) (hf : ∀ p s, (f p s).coerced = s.coerced) :
    KeepsRelated document document Recorded f fun p r => (f p r.1, r.2) := by
  rintro p s ⟨_, entered⟩ rfl ⟨rfl, haccounted⟩
  exact ⟨rfl, haccounted.of_eq (hf p _)⟩

theorem coerced_attach (s : Pass) (c : Child) : (s.attach c).coerced = s.coerced := by
  unfold attach
  split <;> rfl

theorem coerced_spread (p : Place) (fragment : String) (s : Pass) : (s.spread p fragment).coerced = s.coerced := by
  unfold spread
  split
  · rfl
  · exact coerced_attach s _

theorem coerced_finish (a : Analyzer) (p : Place) (s : Pass) : (s.finish a p).coerced = s.coerced := by
  unfold finish judge
  split
  · rfl
  · simp only
    split
    · split <;> rfl
    · rfl
    · rfl

/-- Writing fields down goes abreast with the pass, and accounts for what it coerces. -/
theorem recording_simulates (a : Analyzer) (document : Document) :
    (visitor a).Simulates ((visitor a).recording visit) document document Recorded where
  enterDocument := keepsRecorded document (visitor a).enterDocument fun _ _ => rfl
  exitDocument := keepsRecorded document (visitor a).exitDocument (coerced_finish a)
  enterOperation name op := keepsRecorded document ((visitor a).enterOperation · name op) fun _ _ => rfl
  exitOperation name op := keepsRecorded document ((visitor a).exitOperation · name op) fun _ _ => rfl
  enterFragment name f := keepsRecorded document ((visitor a).enterFragment · name f) fun _ _ => rfl
  exitFragment name f := keepsRecorded document ((visitor a).exitFragment · name f) fun _ _ => rfl
  enterField f below p s r hp hr := by
    obtain ⟨_, entered⟩ := r
    subst hp
    obtain ⟨rfl, haccounted⟩ := hr
    exact ⟨rfl, rfl, haccounted.enterField p f below⟩
  exitField f below := keepsRecorded document ((visitor a).exitField · f below) fun _ _ => rfl
  spread fragment := keepsRecorded document ((visitor a).spread · fragment) fun p s => coerced_spread p fragment s

/-- Writing fields down changes nothing about a pass, and they account for what it coerces. -/
theorem visits_accounted (a : Analyzer) (schema : Schema) (document : Document) (supplied : Variables) :
    (((visitor a).recording visit).walk schema document supplied (start, [])).1 = runPass a schema document supplied ∧
      Accounted (visits a schema document supplied) (runPass a schema document supplied) :=
  (recording_simulates a document).walk_simulated rfl rfl schema supplied ⟨rfl, .start⟩

theorem coerced_runPass (a : Analyzer) (schema : Schema) (document : Document) (supplied : Variables) :
    (runPass a schema document supplied).coerced = (built a schema document supplied).coerced := by
  rw [runPass_eq, coerced_finish]

end Pass

/-! ## Scopes -/

/-- The scopes of a document with the variables they define, in the order of a pass. -/
def Document.scopes (document : Document) : List (VariableScope × List VariableDefinition) :=
  document.operationsInOrder.map (fun op => (some op.2.position, op.2.variableDefinitions)) ++
    [(none, document.fragmentScopeDefinitions)]

/-- The scopes that reach a sized field. -/
def Document.sizedScopes (document : Document) (visits : List Visit) :
    List (VariableScope × List VariableDefinition) :=
  document.scopes.filter fun scope => ReachesSized visits scope.1

variable {schema : Schema} {document : Document} {a : Analyzer}

namespace Pass

theorem reachesSized_iff (a : Analyzer) (schema : Schema) (document : Document) (supplied : Variables)
    (scope : VariableScope) :
    ReachesSized (visits a schema document supplied) scope ↔
      scope ∈ (built a schema document supplied).coerced.keys := by
  rw [← coerced_runPass]
  exact (visits_accounted a schema document supplied).2.reachesSized_iff scope

theorem reachesSized_operation (a : Analyzer) (schema : Schema) (supplied : Variables)
    (hpositions : (document.operations.values.map (·.position)).Nodup) {op : Option String × Operation}
    (hop : op ∈ document.operationsInOrder) :
    ReachesSized (visits a schema document supplied) (some op.2.position) ↔
      Selection.needsValuesAll schema (schema.root? op.2.kind) op.2.selections = true := by
  obtain ⟨hkeys, -⟩ := built_settled a schema supplied hpositions
  rw [reachesSized_iff, hkeys, List.mem_append]
  constructor
  · rintro (hmem | hmem)
    · obtain ⟨op', hop', hposition⟩ := List.mem_map.mp hmem
      obtain ⟨hop', hneeds⟩ := List.mem_filter.mp hop'
      -- no other operation is at this position
      have hsame : op' = op :=
        List.inj_on_of_nodup_map (nodup_operationsInOrder hpositions) hop' hop (Option.some.inj hposition)
      rwa [hsame] at hneeds
    · split at hmem <;> simp at hmem
  · intro hneeds
    exact .inl (List.mem_map.mpr ⟨op, List.mem_filter.mpr ⟨hop, hneeds⟩, rfl⟩)

theorem reachesSized_fragments (a : Analyzer) (schema : Schema) (supplied : Variables)
    (hpositions : (document.operations.values.map (·.position)).Nodup) :
    ReachesSized (visits a schema document supplied) none ↔ document.fragmentsNeedValues schema = true := by
  obtain ⟨hkeys, -⟩ := built_settled a schema supplied hpositions
  rw [reachesSized_iff, hkeys, List.mem_append]
  cases document.fragmentsNeedValues schema <;> simp

end Pass

/-- The scopes that reach a sized field are those that need their variables. -/
theorem scopeErrors_eq_flatMap (a : Analyzer) (schema : Schema) (supplied : Variables)
    (hpositions : (document.operations.values.map (·.position)).Nodup) :
    document.scopeErrors schema supplied =
      (document.sizedScopes (Pass.visits a schema document supplied)).flatMap (coercionErrors ·.2 supplied) := by
  rw [Document.sizedScopes, flatMap_filter, Document.scopes, List.flatMap_append, List.flatMap_map,
    List.flatMap_singleton, Document.scopeErrors]
  congr 1
  · refine List.flatMap_congr fun op hop => ?_
    simp only [Document.operationErrors, decide_eq_true_eq, Pass.reachesSized_operation a schema supplied hpositions hop]
  · simp only [decide_eq_true_eq, Pass.reachesSized_fragments a schema supplied hpositions]

/-- Where operations have distinct positions, a pass reports what is wrong with the variables
    of the scopes that reach a sized field, in the order of the scopes and every error where it
    comes first, and then at most one error more, about a cycle or the limit. So a scope that
    reaches no sized field reports nothing and no error is reported twice. Those scopes are
    coerced and no others, each once. -/
theorem sized_reported (ha : schema.analyzer = some a)
    (hpositions : (document.operations.values.map (·.position)).Nodup) (e : Execution) :
    (∃ last : Option RuleError,
      (validate schema document e).execution.errors =
        ((document.sizedScopes (Pass.visits a schema document e.supplied)).flatMap
          (coercionErrors ·.2 e.supplied)).eraseDups ++ last.toList ∧
      ∀ err ∈ last, err.cause.isCycle = true ∨ err.cause.isLimit = true) ∧
    (∀ err ∈ (validate schema document e).execution.errors, err.cause.isVariable = true →
      ∃ scope ∈ document.sizedScopes (Pass.visits a schema document e.supplied),
        err ∈ coercionErrors scope.2 e.supplied) ∧
    (validate schema document e).execution.errors.Nodup ∧
    (coercions (Pass.visits a schema document e.supplied)).Nodup ∧
    ∀ scope, scope ∈ coercions (Pass.visits a schema document e.supplied) ↔
      ReachesSized (Pass.visits a schema document e.supplied) scope := by
  have hended := validate_ended ha document e
  have hvariable := Pass.isVariable_of_built a schema document e.supplied
  have haccounted := (Pass.visits_accounted a schema document e.supplied).2
  have hbuilt := Pass.built_errors a schema e.supplied hpositions
  have hnodup : (Pass.built a schema document e.supplied).errors.Nodup := by
    rw [hbuilt]
    exact nodup_foldl_addNew _ List.nodup_nil
  rw [foldl_addNew_eq_eraseDups, scopeErrors_eq_flatMap a schema e.supplied hpositions] at hbuilt
  refine ⟨?_, fun err herr herrVariable => ?_, hended.nodup hvariable hnodup, ?_, fun scope => ?_⟩
  · rw [← hbuilt]
    exact hended.exists_last
  · have hmem : err ∈ (Pass.built a schema document e.supplied).errors := by
      rw [← hended.filter_isVariable hvariable]
      exact List.mem_filter.mpr ⟨herr, herrVariable⟩
    rw [hbuilt, List.mem_eraseDups] at hmem
    exact List.mem_flatMap.mp hmem
  · rw [haccounted.coercions]
    exact (runPass a schema document e.supplied).coerced.nodup
  · rw [haccounted.coercions, haccounted.reachesSized_iff]

/-- No variable is supplied. `A` needs its own and `B` does not; the fragments, which have both,
    need them. -/
def unsupplied : Document where
  operations := .ofPairs [
    (some "A", ⟨⟨1, 1⟩, .query, [⟨⟨1, 9⟩, "n", .named "Int" false, none, []⟩], [],
      [.field ⟨none, "items", [("first", .var "n")], []⟩ [.field ⟨none, "name", [], []⟩ []]]⟩),
    (some "B", ⟨⟨2, 1⟩, .query, [⟨⟨2, 9⟩, "m", .named "Int" false, none, []⟩], [],
      [.field ⟨none, "__typename", [], []⟩ [], .spread "F" []]⟩)]
  fragments := .ofPairs [
    ("F", ⟨⟨3, 1⟩, "Query", [], [.field ⟨none, "items", [("first", .var "m")], []⟩ []]⟩)]

/-- The fragments report the variable of `B`, and not again that of `A`. -/
theorem sized_reported_unsupplied :
    shop.analyzer = some (.ofMax 10) ∧ (unsupplied.operations.values.map (·.position)).Nodup ∧
      (unsupplied.sizedScopes (Pass.visits (.ofMax 10) shop unsupplied ∅)).map (·.1) = [some ⟨1, 1⟩, none] ∧
      (∃ last : Option RuleError, (validate shop unsupplied (.ofVariables ∅)).execution.errors =
        [⟨.missingVariable "n" (.named "Int" false), [⟨1, 9⟩]⟩,
          ⟨.missingVariable "m" (.named "Int" false), [⟨2, 9⟩]⟩] ++ last.toList) ∧
      (coercions (Pass.visits (.ofMax 10) shop unsupplied ∅)).Nodup := by
  have ha : shop.analyzer = some (.ofMax 10) := rfl
  have hpositions : (unsupplied.operations.values.map (·.position)).Nodup := by decide +kernel
  obtain ⟨⟨last, herrors, -⟩, -, -, hcoercions, -⟩ := sized_reported ha hpositions (.ofVariables ∅)
  have hreported :
      ((unsupplied.sizedScopes (Pass.visits (.ofMax 10) shop unsupplied ∅)).flatMap (coercionErrors ·.2 ∅)).eraseDups =
        [⟨.missingVariable "n" (.named "Int" false), [⟨1, 9⟩]⟩,
          ⟨.missingVariable "m" (.named "Int" false), [⟨2, 9⟩]⟩] := by
    decide +kernel
  exact ⟨ha, hpositions, by decide +kernel, ⟨last, herrors.trans (congrArg (· ++ last.toList) hreported)⟩, hcoercions⟩

end QueryCost
