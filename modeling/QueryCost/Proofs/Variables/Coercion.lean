/-
  QueryCost.Proofs.Variables.Coercion — which definitions fail, and what the others come to.

  A definition fails by itself: by what is supplied for its name, its type and its default. So
  the definitions that fail are all that is reported, each once, at its place and in the order
  they stand in. Where none fails, every one is taken in. A value that is supplied is the same
  for all definitions of a name, and of the defaults the last one stays.

  - `coerce_of_fails`, `coerce_of_meets`: what becomes of one definition.
  - `foldl_coerceNext_errors`, `foldl_coerceNext_values`: what becomes of a list of them.
  - `coerced_exactly`: the errors of all that fail, or the values of all that are defined.
-/

import Mathlib.Data.List.Basic
import QueryCost.Coercion
import QueryCost.Proofs.Tables

namespace QueryCost

/-! ## One definition -/

/-- The value is an integer of 32 bits. -/
def Constant.IsInt32 : Constant → Prop
  | .number (.integer n _) => -2147483648 ≤ n ∧ n ≤ 2147483647
  | _ => False

/-- The type is `Int`, nullable or not. -/
def TypeRef.IsInt (t : TypeRef) : Prop := ∃ nullable, t = .named "Int" nullable

instance : DecidablePred Constant.IsInt32
  | .number (.integer n _) => inferInstanceAs (Decidable (-2147483648 ≤ n ∧ n ≤ 2147483647))
  | .number (.real _) | .null | .boolean _ | .string _ | .enum _ | .list _ | .object _ => isFalse not_false

instance (t : TypeRef) : Decidable t.IsInt :=
  inferInstanceAs (Decidable (∃ nullable, t = .named "Int" nullable))

/-- What is said of a value that is no integer of 32 bits. -/
def Constant.int32Problem : Constant → IntProblem
  | .number (.integer n _) => if n ≤ 9223372036854775807 then .notInt32 else .notInteger
  | _ => .notInteger

namespace VariableDefinition

/-- `null` is supplied for a type without it, or for an `Int` what is no integer of 32 bits, or
    nothing is supplied for a type without `null` and there is no default. -/
def Fails (d : VariableDefinition) (supplied : Variables) : Prop :=
  (supplied.get? d.name = some .null ∧ d.type.nullable = false) ∨
    (∃ v ∈ supplied.get? d.name, v ≠ .null ∧ ¬ v.IsInt32 ∧ d.type.IsInt) ∨
    (supplied.get? d.name = none ∧ d.defaultValue = none ∧ d.type.nullable = false)

instance (supplied : Variables) (d : VariableDefinition) : Decidable (d.Fails supplied) :=
  inferInstanceAs (Decidable (_ ∨ _ ∨ _))

/-- Why a definition fails, if it does. -/
def failure (d : VariableDefinition) (supplied : Variables) : Cause :=
  match supplied.get? d.name with
  | none => .missingVariable d.name d.type
  | some .null => .nullVariable d.name d.type
  | some v => .invalidVariable d.name v v.int32Problem

end VariableDefinition

theorem intProblem?_null (t : TypeRef) : intProblem? t .null = none := by
  unfold intProblem?
  split <;> simp_all

theorem intProblem?_of_not_int {t : TypeRef} (ht : ¬ t.IsInt) (v : Constant) : intProblem? t v = none := by
  unfold intProblem?
  split
  · exact absurd ⟨_, rfl⟩ ht
  · rfl
  · exact absurd ⟨_, rfl⟩ ht
  · rfl

/-- Integers of 32 bits are refused by no type. -/
theorem intProblem?_of_isInt32 (t : TypeRef) {v : Constant} (hv : v.IsInt32) : intProblem? t v = none := by
  unfold intProblem?
  split
  · obtain ⟨hlow, hhigh⟩ := hv
    rw [if_neg (by omega), if_pos ⟨hlow, hhigh⟩]
  · rfl
  · rename_i nullable hnumber hnull
    cases v with
    | number number =>
      cases number with
      | integer n h => exact absurd rfl (hnumber n h)
      | real x => exact hv.elim
    | _ => exact hv.elim
  · rfl

/-- Other values but `null` are refused by `Int`. -/
theorem intProblem?_of_not_int32 {t : TypeRef} (ht : t.IsInt) {v : Constant} (hnull : v ≠ .null) (hv : ¬ v.IsInt32) :
    intProblem? t v = some v.int32Problem := by
  obtain ⟨nullable, rfl⟩ := ht
  cases v with
  | null => exact absurd rfl hnull
  | number number =>
    cases number with
    | real x => rfl
    | integer n h =>
      have hrange : ¬ (-2147483648 ≤ n ∧ n ≤ 2147483647) := hv
      simp only [intProblem?, Constant.int32Problem, hrange, if_false]
      by_cases hlarge : 9223372036854775807 < n
      · rw [if_pos hlarge, if_neg (by omega)]
      · rw [if_neg hlarge, if_pos (by omega)]
  | var x => exact x.elim
  | _ => rfl

namespace VariableDefinition

variable {d : VariableDefinition} {supplied : Variables}

theorem coerce_of_fails (h : d.Fails supplied) : d.coerce supplied = .error (d.failure supplied) := by
  unfold coerce failure
  rcases h with ⟨hsupplied, hnullable⟩ | ⟨v, hsupplied, hnull, hint32, hint⟩ | ⟨hsupplied, hdefault, hnullable⟩
  · simp [hsupplied, hnullable]
  · rw [Option.mem_def] at hsupplied
    simp [hsupplied, hnull, intProblem?_of_not_int32 hint hnull hint32]
  · simp [hsupplied, hdefault, hnullable]

/-- A definition that does not fail comes to what is supplied, or else to its default. -/
theorem coerce_of_meets (h : ¬ d.Fails supplied) :
    d.coerce supplied = ((supplied.get? d.name).or d.defaultValue).elim .absent .value := by
  unfold coerce
  cases hsupplied : supplied.get? d.name with
  | none =>
    cases hdefault : d.defaultValue with
    | some v => rfl
    | none =>
      cases hnullable : d.type.nullable with
      | true => rfl
      | false => exact absurd (.inr (.inr ⟨hsupplied, hdefault, hnullable⟩)) h
  | some v =>
    have hnull : ¬ (v = .null ∧ d.type.nullable = false) := by
      rintro ⟨rfl, hnullable⟩
      exact h (.inl ⟨hsupplied, hnullable⟩)
    have hproblem : intProblem? d.type v = none := by
      by_cases hv : v = .null
      · rw [hv, intProblem?_null]
      · by_cases hint32 : v.IsInt32
        · exact intProblem?_of_isInt32 d.type hint32
        · exact intProblem?_of_not_int (fun hint => h (.inr (.inl ⟨v, hsupplied, hv, hint32, hint⟩))) v
    simp [hnull, hproblem]

end VariableDefinition

/-! ## A list of definitions -/

/-- The errors about the definitions that fail, in the order they stand in. -/
def failures (definitions : List VariableDefinition) (supplied : Variables) : List RuleError :=
  (definitions.filter (·.Fails supplied)).map fun d => ⟨d.failure supplied, [d.position]⟩

/-- Of the defaults of a name the last. -/
def lastDefault (definitions : List VariableDefinition) (x : String) : Option Constant :=
  ((definitions.filter (·.name = x)).filterMap (·.defaultValue)).getLast?

/-- The values are those of the definitions: what is supplied for a defined name, or else the
    last of its defaults, and nothing for other names. -/
structure Variables.CoercedFrom (values : Variables) (definitions : List VariableDefinition) (supplied : Variables) :
    Prop where
  defined : ∀ x, (values.get? x).isSome ↔
    x ∈ definitions.map (·.name) ∧ ((supplied.get? x).isSome ∨ ∃ d ∈ definitions, d.name = x ∧ d.defaultValue.isSome)
  of_supplied : ∀ x ∈ definitions.map (·.name), ∀ v, supplied.get? x = some v → values.get? x = some v
  of_default : ∀ x ∈ definitions.map (·.name), supplied.get? x = none → values.get? x = lastDefault definitions x

section

variable {supplied : Variables} {definitions : List VariableDefinition}

theorem failures_eq_nil_iff : failures definitions supplied = [] ↔ ∀ d ∈ definitions, ¬ d.Fails supplied := by
  simp [failures]

theorem foldl_coerceNext_errors (definitions : List VariableDefinition) (sofar : Variables × List RuleError) :
    (definitions.foldl (coerceNext supplied) sofar).2 = sofar.2 ++ failures definitions supplied := by
  induction definitions generalizing sofar with
  | nil => simp [failures]
  | cons d rest ih =>
    rw [List.foldl_cons, ih]
    by_cases hd : d.Fails supplied
    · have hnext : (coerceNext supplied sofar d).2 = sofar.2 ++ [⟨d.failure supplied, [d.position]⟩] := by
        simp only [coerceNext, VariableDefinition.coerce_of_fails hd]
      simp [hnext, hd, failures]
    · have hnext : (coerceNext supplied sofar d).2 = sofar.2 := by
        simp only [coerceNext, VariableDefinition.coerce_of_meets hd]
        cases (supplied.get? d.name).or d.defaultValue <;> rfl
      simp [hnext, hd, failures]

/-- One more definition that does not fail gives its name a value, if it has one. -/
theorem get?_coerceNext {d : VariableDefinition} (hd : ¬ d.Fails supplied) (sofar : Variables × List RuleError)
    (x : String) :
    (coerceNext supplied sofar d).1.get? x =
      if d.name = x then ((supplied.get? x).or d.defaultValue).or (sofar.1.get? x) else sofar.1.get? x := by
  simp only [coerceNext, VariableDefinition.coerce_of_meets hd]
  by_cases hname : d.name = x
  · subst hname
    cases hvalue : (supplied.get? d.name).or d.defaultValue with
    | none => simp
    | some v => simp [Variables.get?_insert]
  · cases hvalue : (supplied.get? d.name).or d.defaultValue with
    | none => simp [hname]
    | some v => simp [Variables.get?_insert, hname]

/-- Where no definition fails, the last one of a name that has a value decides. -/
theorem foldl_coerceNext_values (h : ∀ d ∈ definitions, ¬ d.Fails supplied) (sofar : Variables × List RuleError)
    (x : String) :
    (definitions.foldl (coerceNext supplied) sofar).1.get? x =
      ((definitions.filter (·.name = x)).filterMap fun d => (supplied.get? x).or d.defaultValue).getLast?.or
        (sofar.1.get? x) := by
  induction definitions generalizing sofar with
  | nil => rfl
  | cons d rest ih =>
    obtain ⟨hd, hrest⟩ := List.forall_mem_cons.mp h
    rw [List.foldl_cons, ih hrest, get?_coerceNext hd]
    by_cases hname : d.name = x
    · rw [if_pos hname, List.filter_cons_of_pos (by simpa using hname), getLast?_filterMap_cons_or]
    · rw [if_neg hname, List.filter_cons_of_neg (by simpa using hname)]

theorem isSome_lastDefault (definitions : List VariableDefinition) (x : String) :
    (lastDefault definitions x).isSome ↔ ∃ d ∈ definitions, d.name = x ∧ d.defaultValue.isSome := by
  rw [lastDefault, List.getLast?_isSome, ne_eq, List.filterMap_eq_nil_iff]
  simp [Option.ne_none_iff_isSome]

theorem filter_eq_nil_of_undefined {x : String} (hx : x ∉ definitions.map (·.name)) :
    definitions.filter (·.name = x) = [] := by
  rw [List.filter_eq_nil_iff]
  intro d hd hname
  exact hx (List.mem_map.mpr ⟨d, hd, by simpa using hname⟩)

/-- Definitions of which none fails come to their values. -/
theorem coercedFrom_foldl (h : ∀ d ∈ definitions, ¬ d.Fails supplied) :
    (definitions.foldl (coerceNext supplied) (∅, [])).1.CoercedFrom definitions supplied := by
  have hvalues : ∀ x, (definitions.foldl (coerceNext supplied) (∅, [])).1.get? x =
      ((definitions.filter (·.name = x)).filterMap fun d => (supplied.get? x).or d.defaultValue).getLast? := by
    intro x
    rw [foldl_coerceNext_values h, show (∅ : Variables).get? x = none from rfl, Option.or_none]
  have hsupplied : ∀ x ∈ definitions.map (·.name), ∀ v, supplied.get? x = some v →
      (definitions.foldl (coerceNext supplied) (∅, [])).1.get? x = some v := by
    intro x hx v hv
    obtain ⟨d, hd, hname⟩ := List.mem_map.mp hx
    have hmem : d ∈ definitions.filter (·.name = x) := List.mem_filter.mpr ⟨hd, by simpa using hname⟩
    have hlength : (definitions.filter (·.name = x)).length ≠ 0 := by
      rw [ne_eq, List.length_eq_zero_iff]
      exact List.ne_nil_of_mem hmem
    rw [hvalues, hv]
    simp only [Option.some_or]
    rw [List.filterMap_eq_map', List.map_const', List.getLast?_replicate, if_neg hlength]
  have hdefault : ∀ x, supplied.get? x = none →
      (definitions.foldl (coerceNext supplied) (∅, [])).1.get? x = lastDefault definitions x := by
    intro x hnone
    rw [hvalues, hnone]
    simp only [Option.none_or]
    rfl
  refine ⟨fun x => ?_, hsupplied, fun x _ hnone => hdefault x hnone⟩
  by_cases hx : x ∈ definitions.map (·.name)
  · cases hv : supplied.get? x with
    | some v => simp [hsupplied x hx v hv, hx]
    | none => rw [hdefault x hv, isSome_lastDefault]; simp [hx]
  · rw [hvalues, filter_eq_nil_of_undefined hx]
    simp [hx]

theorem coerceVariables_eq (definitions : List VariableDefinition) (supplied : Variables) :
    coerceVariables definitions supplied =
      if failures definitions supplied = [] then .ok (definitions.foldl (coerceNext supplied) (∅, [])).1
      else .error (failures definitions supplied) := by
  have herrors : (definitions.foldl (coerceNext supplied) (∅, [])).2 = failures definitions supplied := by
    rw [foldl_coerceNext_errors, List.nil_append]
  simp only [coerceVariables, herrors, List.isEmpty_iff]

/-- Values are only there where no definition fails, and then they are those of the definitions. -/
theorem coercedFrom_of_ok {values : Variables} (h : coerceVariables definitions supplied = .ok values) :
    values.CoercedFrom definitions supplied := by
  rw [coerceVariables_eq] at h
  split at h
  · rename_i hnone
    rw [← Except.ok.inj h]
    exact coercedFrom_foldl (failures_eq_nil_iff.mp hnone)
  · cases h

/-- What the values of definitions are for a name. -/
theorem Variables.CoercedFrom.get?_eq {values : Variables} (h : values.CoercedFrom definitions supplied) (x : String) :
    values.get? x =
      if x ∈ definitions.map (·.name) then (supplied.get? x).or (lastDefault definitions x) else none := by
  by_cases hx : x ∈ definitions.map (·.name)
  · rw [if_pos hx]
    cases hv : supplied.get? x with
    | some v => exact h.of_supplied x hx v hv
    | none => rw [h.of_default x hx hv, Option.none_or]
  · rw [if_neg hx, ← Option.not_isSome_iff_eq_none, h.defined]
    exact fun hdefined => hx hdefined.1

end

/-- Either some definitions fail, and just these are reported, each once, at its place and in
    the order they stand in; or none does, and the values are those of the definitions. -/
theorem coerced_exactly (definitions : List VariableDefinition) (supplied : Variables) :
    ((∃ d ∈ definitions, d.Fails supplied) ∧
        coerceVariables definitions supplied = .error
          ((definitions.filter (·.Fails supplied)).map fun d => ⟨d.failure supplied, [d.position]⟩)) ∨
      ((∀ d ∈ definitions, ¬ d.Fails supplied) ∧
        ∃ values, coerceVariables definitions supplied = .ok values ∧ values.CoercedFrom definitions supplied) := by
  by_cases hnone : failures definitions supplied = []
  · have hmeets := failures_eq_nil_iff.mp hnone
    refine .inr ⟨hmeets, _, ?_, coercedFrom_foldl hmeets⟩
    rw [coerceVariables_eq, if_pos hnone]
  · refine .inl ⟨?_, ?_⟩
    · by_contra hmeets
      exact hnone (failures_eq_nil_iff.mpr fun d hd hfails => hmeets ⟨d, hd, hfails⟩)
    · rw [coerceVariables_eq, if_neg hnone, failures]

end QueryCost
