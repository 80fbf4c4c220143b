/-
  QueryCost.Proofs.Rewriting.Substitution — variables stand for their values.

  A variable that has a value in its scope may be written out, by itself or inside a list or
  an object: an argument takes the same value then. A field has the same sizes, so the same
  role, and whether it needs the variables depends on its name alone.

  - `resolveArgument_substituted`: an argument takes the same value.
  - `fieldRole_substituted`, `outlinesAll_substitutedAll`: a field has the same role, and
    selections have the same outlines.
  - `substitution_published`: in operations at distinct positions and in fragments, variables
    may be written out without any consequence.
-/

import QueryCost.Proofs.Rewriting.Erasure
import QueryCost.Proofs.Rewriting.Interchange

namespace QueryCost

/-! ## Arguments -/

/-- The value with the variables written out that have a known one, at any depth. -/
def Value.substituted (known : Variables) (v : Value String) : Value String :=
  v.bind fun x => ((known.get? x).map .ofConstant).getD (.var x)

section

variable {known values : Variables} (hknown : ∀ x c, known.get? x = some c → values.get? x = some c)

theorem resolveArgument_ofConstant (c : Constant) (definition : Option ArgumentEntry) (values : Variables) :
    resolveArgument (.ofConstant c) definition values = some c := by
  have hbind := Value.bind_ofConstant (fun x => (values.get? x).getD .null) c
  cases c with
  | var x => exact x.elim
  | _ => exact congrArg some hbind

include hknown

/-- Variables that are written out have the values that are put in for them. -/
theorem Value.bind_substituted (v : Value String) :
    (v.substituted known).bind (fun x => (values.get? x).getD .null) =
      v.bind fun x => (values.get? x).getD (.null : Constant) := by
  rw [substituted, bind_bind]
  refine congrArg (v.bind ·) (funext fun x => ?_)
  cases hx : known.get? x with
  | none => rfl
  | some c =>
    rw [hknown x c hx]
    exact bind_ofConstant _ c

theorem resolveArgument_substituted (written : Value String) (definition : Option ArgumentEntry) :
    resolveArgument (written.substituted known) definition values = resolveArgument written definition values := by
  cases written with
  | var x =>
    cases hx : known.get? x with
    | none => simp only [Value.substituted, Value.bind, hx, Option.map_none, Option.getD_none]
    | some c =>
      -- the literal is the value, and no default is asked for
      have hliteral : (Value.var x).substituted known = .ofConstant c := by
        simp only [Value.substituted, Value.bind, hx, Option.map_some, Option.getD_some]
      rw [hliteral, resolveArgument_ofConstant, resolveArgument, hknown x c hx, Option.some_or]
  | _ => exact congrArg some (Value.bind_substituted hknown _)

end

/-! ## Fields -/

def Field.substituted (known : Variables) (f : Field) : Field :=
  { f with arguments := f.arguments.map fun a => (a.1, a.2.substituted known) }

@[simp] theorem Field.name_substituted (known : Variables) (f : Field) : (f.substituted known).name = f.name := rfl

section

variable {known : Variables} {values : Option Variables}
  (hknown : ∀ m ∈ values, ∀ x c, known.get? x = some c → m.get? x = some c)
include hknown

theorem listSizes_substituted (f : Field) (entry : FieldEntry) (cost : Option DeclaredCost) :
    listSizes (f.substituted known) entry cost values = listSizes f entry cost values := by
  unfold listSizes
  cases cost.bind (·.sizeArguments?) with
  | none => rfl
  | some names =>
    refine Option.map_congr fun m hm => ?_
    simp only [Pass.sizes, Field.substituted, List.filter_map, List.filterMap_map]
    refine List.filterMap_congr fun a _ => ?_
    simp only [Function.comp_apply, resolveArgument_substituted (hknown m hm)]

/-- A field has the role it had. -/
theorem fieldRole_substituted (schema : Schema) (parent : Option TypeEntry) (f : Field) :
    fieldRole schema values parent (f.substituted known) = fieldRole schema values parent f := by
  simp only [fieldRole, Field.name_substituted, listSizes_substituted hknown]

end

/-! ## Selections -/

mutual

/-- The selection with the variables in its arguments written out. -/
def Selection.substituted (known : Variables) : Selection → Selection
  | .field f below => .field (f.substituted known) (substitutedAll known below)
  | .inline condition directives below => .inline condition directives (substitutedAll known below)
  | .spread f directives => .spread f directives

def Selection.substitutedAll (known : Variables) : List Selection → List Selection
  | [] => []
  | s :: rest => s.substituted known :: substitutedAll known rest

end

section

variable {document : Document} {schema : Schema} {known : Variables} {values : Option Variables}

mutual

theorem Selection.outlines_substituted (hknown : ∀ m ∈ values, ∀ x c, known.get? x = some c → m.get? x = some c)
    (parent : Option TypeEntry) (s : Selection) :
    (s.substituted known).outlines document schema values parent = s.outlines document schema values parent := by
  cases s with
  | field f below =>
    simp only [substituted, outlines, fieldRole_substituted hknown, Field.name_substituted,
      outlinesAll_substitutedAll hknown (schema.landing parent f.name) below]
  | inline condition directives below =>
    cases condition with
    | none => exact outlinesAll_substitutedAll hknown parent below
    | some t => exact outlinesAll_substitutedAll hknown (schema.type? t) below
  | spread f directives => rfl

/-- Selections have the outlines they had with values that are among those written out. -/
theorem Selection.outlinesAll_substitutedAll
    (hknown : ∀ m ∈ values, ∀ x c, known.get? x = some c → m.get? x = some c) (parent : Option TypeEntry)
    (selections : List Selection) :
    outlinesAll document schema values parent (substitutedAll known selections) =
      outlinesAll document schema values parent selections := by
  cases selections with
  | nil => rfl
  | cons s rest =>
    rw [substitutedAll, outlinesAll, outlinesAll, outlines_substituted hknown parent s,
      outlinesAll_substitutedAll hknown parent rest]

end

mutual

theorem Selection.needsValues_substituted (parent : Option TypeEntry) (s : Selection) :
    (s.substituted known).needsValues schema parent = s.needsValues schema parent := by
  cases s with
  | field f below =>
    have hbelow := needsValuesAll_substitutedAll (schema.landing parent f.name) below
    simp only [substituted, needsValues_field, Field.name_substituted, hbelow]
    rfl
  | inline condition directives below =>
    cases condition with
    | none => exact needsValuesAll_substitutedAll parent below
    | some t => exact needsValuesAll_substitutedAll (schema.type? t) below
  | spread f directives => rfl

/-- Selections need values as they did: it depends on the names of fields alone. -/
theorem Selection.needsValuesAll_substitutedAll (parent : Option TypeEntry) (selections : List Selection) :
    needsValuesAll schema parent (substitutedAll known selections) = needsValuesAll schema parent selections := by
  cases selections with
  | nil => rfl
  | cons s rest =>
    rw [substitutedAll, needsValuesAll, needsValuesAll, needsValues_substituted parent s,
      needsValuesAll_substitutedAll parent rest]

end

/-- What is written out may be interchanged with what was, in any scope with more values. -/
theorem Selection.interchangeable_substitutedAll (schema : Schema) (document : Document)
    (hknown : ∀ m ∈ values, ∀ x c, known.get? x = some c → m.get? x = some c) (parent : Option TypeEntry)
    (selections : List Selection) :
    Interchangeable schema document values parent selections (substitutedAll known selections) :=
  ⟨needsValuesAll_substitutedAll parent selections, outlinesAll_substitutedAll hknown parent selections⟩

end

/-! ## Documents -/

def Operation.substituted (known : Variables) (op : Operation) : Operation :=
  { op with selections := Selection.substitutedAll known op.selections }

def Fragment.substituted (known : Variables) (f : Fragment) : Fragment :=
  { f with selections := Selection.substitutedAll known f.selections }

/-- The values of the variables to be written out in a scope that defines these: all of them
    where the scope is chosen and they can be coerced, and none otherwise. -/
def knownValues (supplied : Variables) (chosen : Bool) (definitions : List VariableDefinition) : Variables :=
  if chosen then (coercedValues definitions supplied).getD ∅ else ∅

theorem coerced_of_known (supplied : Variables) (chosen : Bool) (definitions : List VariableDefinition) :
    ∀ m ∈ coercedValues definitions supplied, ∀ x c,
      (knownValues supplied chosen definitions).get? x = some c → m.get? x = some c := by
  intro m hm x c hx
  rw [Option.mem_def] at hm
  cases chosen with
  | false => cases hx
  | true => rwa [knownValues, hm] at hx

namespace Document

/-- The document with the variables written out in the chosen scopes. An operation has the
    values of its own variables, and a fragment those of the variables of all fragments. -/
def substituted (document : Document) (supplied : Variables) (chosen : VariableScope → Bool) : Document where
  operations := document.operations.mapValues fun op =>
    op.substituted (knownValues supplied (chosen (some op.position)) op.variableDefinitions)
  fragments := document.fragments.mapValues fun f =>
    f.substituted (knownValues supplied (chosen none) document.fragmentScopeDefinitions)

theorem interchangeable_substituted (schema : Schema) {document : Document}
    (hpositions : (document.operations.values.map (·.position)).Nodup) (supplied : Variables)
    (chosen : VariableScope → Bool) :
    Interchangeable schema supplied document (document.substituted supplied chosen) := by
  constructor
  · refine List.forall₂_map_right_iff.mpr (List.forall₂_same.mpr fun entry hentry => ⟨rfl, rfl, rfl, rfl, ?_⟩)
    have hop : entry.2 ∈ document.operations.values := List.mem_map_of_mem hentry
    have hown := Selection.interchangeable_substitutedAll schema document
      (coerced_of_known supplied (chosen (some entry.2.position)) entry.2.variableDefinitions)
      (schema.root? entry.2.kind) entry.2.selections
    -- at distinct positions the scope has the values of the operation's own variables
    exact hown.of_values fun hneeds => scopeValues_of_agree (scopesAgree_of_nodup hpositions) hop hneeds
  · refine List.forall₂_map_right_iff.mpr (List.forall₂_same.mpr fun entry _ => ⟨rfl, rfl, rfl, ?_⟩)
    exact Selection.interchangeable_substitutedAll schema document (coerced_of_known _ _ _) _ _

end Document

/-- Variables may be written out. In a document whose operations have distinct positions, let
    any of the scopes be chosen whose variables can be coerced, and every variable with a value
    there be replaced by it in the arguments of the fields, at any depth. A pass publishes and
    reports the same, variables being defined and supplied as before. -/
theorem substitution_published (schema : Schema) {document : Document}
    (hpositions : (document.operations.values.map (·.position)).Nodup) (e : Execution) (chosen : VariableScope → Bool) :
    (validate schema (document.substituted e.supplied chosen) e).execution = (validate schema document e).execution :=
  (document.interchangeable_substituted schema hpositions e.supplied chosen).execution_eq

/-- The size of the listing written out. -/
theorem substitution_published_listing :
    (listing.operations.values.map (·.position)).Nodup ∧
      (listing.substituted three.supplied fun _ => true).operations.values.map (·.selections) =
        [[.field ⟨none, "items", [("first", .number (.integer 3 (by decide)))], []⟩ [.spread "Entry" []]]] ∧
      (validate shop (listing.substituted three.supplied fun _ => true) three).execution.complexity = some ⟨15, 10⟩ := by
  have hpositions : (listing.operations.values.map (·.position)).Nodup := by decide +kernel
  have hpublished : (validate shop listing three).execution.complexity = some ⟨15, 10⟩ := by decide +kernel
  refine ⟨hpositions, rfl, ?_⟩
  rw [substitution_published shop hpositions three fun _ => true, hpublished]

end QueryCost
