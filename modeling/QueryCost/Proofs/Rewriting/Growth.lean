/-
  QueryCost.Proofs.Rewriting.Growth — larger sizes and a larger default never cost less.

  Two requests for one document are compared. Some integers among the variables of the second
  are larger, both being of 32 bits with a sign, and its default complexity may be larger. All
  32-bit integers are coerced alike, so a scope fails in both or in neither, with the same
  errors. List sizes grow with the integers, a negative one being none, and charges and sums
  grow with list sizes and the default. Operations at one position may share a scope here: its
  variables are those of the first in need, which is the same operation in both.

  - `coerced_raised`: raised variables are coerced to raised values, with the same errors.
  - `fieldRole_raised`, `costAll_raised`: a field has the same role with larger sizes, and
    selections cost at least as much.
  - `growth_published`: something is published for both or for neither, the second is at least
    as large, and the errors about variables are the same.
-/

import QueryCost.Proofs.Pass.Analyzers
import QueryCost.Proofs.Pass.Outcome
import QueryCost.Proofs.Rewriting.Alike
import QueryCost.Proofs.Variables.Coercion

namespace QueryCost

/-! ## Raised variables -/

/-- The same value, or a larger integer, both of 32 bits with a sign. -/
inductive Constant.Raised : Constant → Constant → Prop
  | same (c : Constant) : Raised c c
  | integer {n n' : Int} (inRange : -9223372036854775808 ≤ n ∧ n ≤ 18446744073709551615)
      (inRange' : -9223372036854775808 ≤ n' ∧ n' ≤ 18446744073709551615) :
      -2147483648 ≤ n → n ≤ n' → n' ≤ 2147483647 →
      Raised (.number (.integer n inRange)) (.number (.integer n' inRange'))

/-- The same names, with the same values or raised ones. -/
def Variables.Raised (vs vs' : Variables) : Prop :=
  ∀ name, Option.Rel Constant.Raised (vs.get? name) (vs'.get? name)

theorem Variables.Raised.insert {vs vs' : Variables} (h : vs.Raised vs') (name : String) {c c' : Constant}
    (hc : Constant.Raised c c') : (vs.insert name c).Raised (vs'.insert name c') := by
  intro m
  rw [get?_insert, get?_insert]
  split
  · exact .some hc
  · exact h m

/-! ## Coercion -/

/-- The same comes of a definition, but the value may be raised. -/
inductive Coerced.Raised : Coerced → Coerced → Prop
  | error (cause : Cause) : Raised (.error cause) (.error cause)
  | value {c c' : Constant} : Constant.Raised c c' → Raised (.value c) (.value c')
  | absent : Raised .absent .absent

theorem Coerced.Raised.refl : ∀ c : Coerced, c.Raised c
  | .error cause => .error cause
  | .value c => .value (.same c)
  | .absent => .absent

section

variable {supplied supplied' : Variables} (h : supplied.Raised supplied')
include h

theorem coerce_raised (d : VariableDefinition) : (d.coerce supplied).Raised (d.coerce supplied') := by
  have hname := h d.name
  unfold VariableDefinition.coerce
  generalize supplied.get? d.name = value, supplied'.get? d.name = value' at hname
  cases hname with
  | none => exact .refl _
  | some hvalue =>
    cases hvalue with
    | same c => exact .refl _
    | @integer n n' inRange inRange' hlow hle hhigh =>
      have hn : Constant.IsInt32 (.number (.integer n inRange)) := And.intro hlow (hle.trans hhigh)
      have hn' : Constant.IsInt32 (.number (.integer n' inRange')) := And.intro (hlow.trans hle) hhigh
      simp only [reduceCtorEq, false_and, if_false, intProblem?_of_isInt32 d.type hn, intProblem?_of_isInt32 d.type hn']
      exact .value (.integer inRange inRange' hlow hle hhigh)

theorem foldl_coerceNext_raised (definitions : List VariableDefinition) {values values' : Variables}
    (hvalues : values.Raised values') (errors : List RuleError) :
    (definitions.foldl (coerceNext supplied) (values, errors)).1.Raised
        (definitions.foldl (coerceNext supplied') (values', errors)).1 ∧
      (definitions.foldl (coerceNext supplied') (values', errors)).2 =
        (definitions.foldl (coerceNext supplied) (values, errors)).2 := by
  induction definitions generalizing values values' errors with
  | nil => exact ⟨hvalues, rfl⟩
  | cons d rest ih =>
    have hd := coerce_raised h d
    simp only [List.foldl_cons, coerceNext]
    generalize d.coerce supplied = coerced, d.coerce supplied' = coerced' at hd
    cases hd with
    | error cause => exact ih hvalues _
    | value hc => exact ih (hvalues.insert d.name hc) _
    | absent => exact ih hvalues _

/-- Raised variables have the same errors, and raised values where there are none. -/
theorem coerced_raised (definitions : List VariableDefinition) :
    Option.Rel Variables.Raised (coercedValues definitions supplied) (coercedValues definitions supplied') ∧
      coercionErrors definitions supplied' = coercionErrors definitions supplied := by
  have hstart : Variables.Raised ∅ ∅ := fun _ => .none
  obtain ⟨hvalues, herrors⟩ := foldl_coerceNext_raised h definitions hstart []
  unfold coercedValues coercionErrors coerceVariables
  simp only [herrors]
  split
  · exact ⟨.some hvalues, rfl⟩
  · exact ⟨.none, rfl⟩

end

/-! ## Sizes -/

section

variable {values values' : Variables} (h : values.Raised values')
include h

/-- A variable gives a raised size, and no other argument a size that depends on variables. -/
theorem size_raised (written : Value String) (definition : Option ArgumentEntry) :
    Option.Rel (· ≤ ·) ((resolveArgument written definition values).bind listSize?)
      ((resolveArgument written definition values').bind listSize?) := by
  have hrefl : ∀ size : Option Size, Option.Rel (· ≤ ·) size size := by
    intro size
    cases size with
    | none => exact .none
    | some size => exact .some (le_refl size)
  cases written with
  | var x =>
    have hx := h x
    simp only [resolveArgument]
    generalize values.get? x = value, values'.get? x = value' at hx
    cases hx with
    | none => exact hrefl _
    | some hvalue =>
      cases hvalue with
      | same c => exact hrefl _
      | integer _ _ _ hle _ => exact .some (Size.ofNat_le_ofNat (Int.toNat_le_toNat hle))
  | _ => exact hrefl _

theorem sizes_raised (field : Field) (entry : FieldEntry) (names : NameSet) :
    List.Forall₂ (· ≤ ·) (Pass.sizes field entry names values) (Pass.sizes field entry names values') := by
  refine List.rel_filterMap ?_ (List.forall₂_same.mpr fun _ _ => rfl)
  rintro ⟨name, written⟩ _ rfl
  exact size_raised h written (entry.argument? name)

end

/-! ## Costs -/

/-- The same role, with larger sizes. -/
inductive FieldRole.Raised : FieldRole → FieldRole → Prop
  | nothing : Raised .nothing .nothing
  | passing : Raised .passing .passing
  | counted (cost : Option DeclaredCost) (landing : Size) {sizes sizes' : List Size} :
      List.Forall₂ (· ≤ ·) sizes sizes' → Raised (.counted cost landing sizes) (.counted cost landing sizes')

theorem rel_fieldCharge {defaultComplexity defaultComplexity' : Size} (hdefault : defaultComplexity ≤ defaultComplexity')
    (cost : Option DeclaredCost) (landing : Size) {sizes sizes' : List Size}
    (hsizes : List.Forall₂ (· ≤ ·) sizes sizes') {x y : Option Size} (h : Option.Rel (· ≤ ·) x y) :
    Option.Rel (· ≤ ·) (x.map (fieldCharge defaultComplexity cost landing sizes))
      (y.map (fieldCharge defaultComplexity' cost landing sizes')) := by
  cases h with
  | none => exact .none
  | some hle => exact .some (fieldCharge_mono hdefault cost landing hsizes hle)

/-- Costs may be compared: both are known or neither is, and the second is at least as large. -/
theorem costRelation_le (defaultComplexity : Size) : CostRelation defaultComplexity (Option.Rel (· ≤ ·)) := by
  refine ⟨.some (le_refl 0), ?_, ?_⟩
  · intro x y x' y' h h'
    cases h with
    | none => exact .none
    | some hle =>
      cases h' with
      | none => exact .none
      | some hle' => exact .some (add_le_add hle hle')
  · intro x y cost landing sizes h
    exact rel_fieldCharge (le_refl _) cost landing (List.forall₂_same.mpr fun _ _ => le_refl _) h

section

variable {schema : Schema} {defaultComplexity defaultComplexity' : Size} {values values' : Option Variables}
  {spread spread' : String → Option Size}

theorem fieldRole_raised (hvalues : Option.Rel Variables.Raised values values') (parent : Option TypeEntry) (f : Field) :
    (fieldRole schema values parent f).Raised (fieldRole schema values' parent f) := by
  unfold fieldRole
  split
  · exact .nothing
  · cases parent with
    | none => exact .nothing
    | some t =>
      simp only
      split
      · exact .passing
      · cases t.field? f.name with
        | none => exact .nothing
        | some entry =>
          simp only [listSizes]
          cases (schema.fieldCost t f.name).bind (·.sizeArguments?) with
          | none => exact .counted _ _ .nil
          | some names =>
            cases hvalues with
            | none => exact .nothing
            | some hvalues => exact .counted _ _ (sizes_raised hvalues f entry names)

mutual

theorem Selection.cost_raised (hdefault : defaultComplexity ≤ defaultComplexity')
    (hvalues : Option.Rel Variables.Raised values values') (hspread : ∀ f, Option.Rel (· ≤ ·) (spread f) (spread' f))
    (parent : Option TypeEntry) (s : Selection) :
    Option.Rel (· ≤ ·) (s.cost schema defaultComplexity values spread parent)
      (s.cost schema defaultComplexity' values' spread' parent) := by
  cases s with
  | field f below =>
    have hrole : (fieldRole schema values parent f).Raised (fieldRole schema values' parent f) :=
      fieldRole_raised hvalues parent f
    have hbelow := costAll_raised hdefault hvalues hspread (schema.landing parent f.name) below
    simp only [cost]
    generalize fieldRole schema values parent f = role, fieldRole schema values' parent f = role' at hrole
    cases hrole with
    | nothing => exact .some (le_refl 0)
    | passing => exact hbelow
    | counted cost landing hsizes => exact rel_fieldCharge hdefault cost landing hsizes hbelow
  | inline condition directives below =>
    cases condition with
    | none => exact costAll_raised hdefault hvalues hspread parent below
    | some t => exact costAll_raised hdefault hvalues hspread (schema.type? t) below
  | spread f directives => exact hspread f

theorem Selection.costAll_raised (hdefault : defaultComplexity ≤ defaultComplexity')
    (hvalues : Option.Rel Variables.Raised values values') (hspread : ∀ f, Option.Rel (· ≤ ·) (spread f) (spread' f))
    (parent : Option TypeEntry) (selections : List Selection) :
    Option.Rel (· ≤ ·) (costAll schema defaultComplexity values spread parent selections)
      (costAll schema defaultComplexity' values' spread' parent selections) := by
  cases selections with
  | nil => exact .some (le_refl 0)
  | cons s rest =>
    rw [costAll_cons, costAll_cons]
    exact (costRelation_le defaultComplexity).add (cost_raised hdefault hvalues hspread parent s)
      (costAll_raised hdefault hvalues hspread parent rest)

end

end

namespace Document

variable {document : Document} {schema : Schema} {defaultComplexity defaultComplexity' : Size}
  {supplied supplied' : Variables}

theorem spreadCost_raised (hdefault : defaultComplexity ≤ defaultComplexity') (h : supplied.Raised supplied')
    (depth : Nat) (f : String) :
    Option.Rel (· ≤ ·) (document.spreadCost schema defaultComplexity supplied depth f)
      (document.spreadCost schema defaultComplexity' supplied' depth f) := by
  induction depth generalizing f with
  | zero =>
    unfold spreadCost
    split
    · exact .none
    · exact .some (le_refl 0)
  | succ depth ih =>
    unfold spreadCost
    cases document.fragment? f with
    | none => exact .some (le_refl 0)
    | some fragment => exact Selection.costAll_raised hdefault (coerced_raised h _).1 ih _ _

theorem partsCost_raised (hdefault : defaultComplexity ≤ defaultComplexity') (h : supplied.Raised supplied')
    (depth : Nat) :
    Option.Rel (· ≤ ·) (document.partsCost schema defaultComplexity supplied depth)
      (document.partsCost schema defaultComplexity' supplied' depth) := by
  rw [partsCost_eq, partsCost_eq]
  refine (costRelation_le defaultComplexity).sum (List.forall₂_same.mpr fun entry _ => ?_)
  exact Selection.costAll_raised hdefault (coerced_raised h _).1 (spreadCost_raised hdefault h depth) _ _

end Document

/-! ## What is published and reported -/

theorem exists_of_rel_some_left {α β : Type} {R : α → β → Prop} {x : α} {other : Option β}
    (h : Option.Rel R (some x) other) : ∃ y, other = some y ∧ R x y := by
  cases h with
  | some hxy => exact ⟨_, rfl, hxy⟩

theorem exists_of_rel_some_right {α β : Type} {R : α → β → Prop} {y : β} {other : Option α}
    (h : Option.Rel R other (some y)) : ∃ x, other = some x ∧ R x y := by
  cases h with
  | some hxy => exact ⟨_, rfl, hxy⟩

/-- The errors about variables, which come before all others. -/
theorem filter_isVariable_withAnalyzer (schema : Schema) (a : Analyzer) (document : Document) (e : Execution) :
    (validate (schema.withAnalyzer a) document e).execution.errors.filter (·.cause.isVariable) =
      ((document.neededScopes schema).flatMap fun scope =>
        coercionErrors (document.scopeDefinitions schema scope) e.supplied).foldl addNew [] := by
  have ha : (schema.withAnalyzer a).analyzer = some a := rfl
  rw [(validate_ended ha document e).filter_isVariable (Pass.isVariable_of_built a (schema.withAnalyzer a) document e.supplied),
    Pass.built_errors_withAnalyzer, (Pass.built_coerced a schema document e.supplied).2]

/-- Let the default complexity be larger, and variables that are 32-bit integers have larger
    values of that kind. Then a pass publishes something exactly when it did before, what it
    publishes is at least as large, and it reports the same about variables. -/
theorem growth_published (schema : Schema) (document : Document) {a a' : Analyzer}
    (hdefault : a.defaultComplexity ≤ a'.defaultComplexity) {e e' : Execution} (h : e.supplied.Raised e'.supplied) :
    Option.Rel (fun c c' => c.current ≤ c'.current) (validate (schema.withAnalyzer a) document e).execution.complexity
        (validate (schema.withAnalyzer a') document e').execution.complexity ∧
      (validate (schema.withAnalyzer a) document e).execution.errors.filter (·.cause.isVariable) =
        (validate (schema.withAnalyzer a') document e').execution.errors.filter (·.cause.isVariable) := by
  have hcosts : ∀ depth, Option.Rel (· ≤ ·) (document.partsCost schema a.defaultComplexity e.supplied depth)
      (document.partsCost schema a'.defaultComplexity e'.supplied depth) := Document.partsCost_raised hdefault h
  constructor
  · cases hbefore : (validate (schema.withAnalyzer a) document e).execution.complexity with
    | some c =>
      obtain ⟨-, depth, hcost⟩ := complexity_withAnalyzer_iff.mp hbefore
      have hle := hcosts depth
      rw [hcost] at hle
      obtain ⟨total, hcost', hle⟩ := exists_of_rel_some_left hle
      have hafter : (validate (schema.withAnalyzer a') document e').execution.complexity =
          some ⟨total, a'.maxComplexity⟩ := complexity_withAnalyzer_iff.mpr ⟨rfl, depth, hcost'⟩
      rw [hafter]
      exact .some hle
    | none =>
      cases hafter : (validate (schema.withAnalyzer a') document e').execution.complexity with
      | none => exact .none
      | some c' =>
        -- what is known of the larger cost at a depth is known of the smaller one
        obtain ⟨-, depth, hcost'⟩ := complexity_withAnalyzer_iff.mp hafter
        have hle := hcosts depth
        rw [hcost'] at hle
        obtain ⟨total, hcost, -⟩ := exists_of_rel_some_right hle
        have hbefore' : (validate (schema.withAnalyzer a) document e).execution.complexity =
            some ⟨total, a.maxComplexity⟩ := complexity_withAnalyzer_iff.mpr ⟨rfl, depth, hcost⟩
        rw [hbefore] at hbefore'
        cases hbefore'
  · rw [filter_isVariable_withAnalyzer, filter_isVariable_withAnalyzer]
    simp only [(coerced_raised h _).2]

/-- Items twice, each time as many as a variable says. -/
def shelves : Document where
  operations := .ofPairs [(none, ⟨⟨1, 1⟩, .query,
    [⟨⟨1, 7⟩, "n", .named "Int" true, none, []⟩, ⟨⟨1, 15⟩, "m", .named "Int" false, none, []⟩], [],
    [.field ⟨none, "items", [("first", .var "n")], []⟩ [.field ⟨none, "name", [], []⟩ []],
      .field ⟨some "more", "items", [("first", .var "m")], []⟩ [.field ⟨none, "name", [], []⟩ []]]⟩)]
  fragments := ∅

def twoAnd (n : Number) : Execution := .ofVariables (.ofPairs [("m", .number (.ofSize 2)), ("n", .number n)])

/-- An item costs 1 with its name 2. Twice this is asked for in any case, and a negative number
    of items is none. -/
theorem growth_published_shelves :
    (Analyzer.ofMax 10).defaultComplexity ≤ ((Analyzer.ofMax 20).withDefault 4).defaultComplexity ∧
      (twoAnd (.integer (-2) (by decide))).supplied.Raised (twoAnd (.integer 3 (by decide))).supplied ∧
      (validate (shop.withAnalyzer (.ofMax 10)) shelves (twoAnd (.integer (-2) (by decide)))).execution.complexity =
        some ⟨6, 10⟩ ∧
      (∃ c, (validate (shop.withAnalyzer ((Analyzer.ofMax 20).withDefault 4)) shelves
        (twoAnd (.integer 3 (by decide)))).execution.complexity = some c ∧ 6 ≤ c.current) ∧
      (validate (shop.withAnalyzer ((Analyzer.ofMax 20).withDefault 4)) shelves
        (twoAnd (.integer 3 (by decide)))).execution.errors.filter (·.cause.isVariable) = [] := by
  have hdefault : (Analyzer.ofMax 10).defaultComplexity ≤ ((Analyzer.ofMax 20).withDefault 4).defaultComplexity := by
    decide
  have htwo : Variables.Raised (Variables.insert ∅ "m" (.number (.ofSize 2))) (Variables.insert ∅ "m" (.number (.ofSize 2))) :=
    Variables.Raised.insert (fun _ => .none) "m" (.same _)
  have hraised : (twoAnd (.integer (-2) (by decide))).supplied.Raised (twoAnd (.integer 3 (by decide))).supplied :=
    htwo.insert "n" (.integer _ _ (by decide) (by decide) (by decide))
  have hbefore : (validate (shop.withAnalyzer (.ofMax 10)) shelves
      (twoAnd (.integer (-2) (by decide)))).execution.complexity = some ⟨6, 10⟩ := by decide +kernel
  have hnone : (validate (shop.withAnalyzer (.ofMax 10)) shelves
      (twoAnd (.integer (-2) (by decide)))).execution.errors.filter (·.cause.isVariable) = [] := by decide +kernel
  obtain ⟨hcomplexity, herrors⟩ := growth_published shop shelves hdefault hraised
  rw [hbefore] at hcomplexity
  exact ⟨hdefault, hraised, hbefore, exists_of_rel_some_left hcomplexity, herrors.symm.trans hnone⟩

end QueryCost
