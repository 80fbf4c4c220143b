/-
  QueryCost.Proofs.DirectCost — what a document costs, read off its selections.

  The cost is said by recursion on the selections alone: without a tree of nodes, without
  a stack and without keeping anything. A field counts for nothing, for what is below it,
  or for its own cost with what is below it (`FieldRole`). A spread counts for the body of
  its fragment, which is read anew every time, to a given depth of spreads; the cost has
  no value where the depth is not enough.

  A document is `Acyclic` when no fragment that is reached from an operation spreads
  itself, by the spreads as they are written, whether they count or not.

  - `exists_cost_of_acyclic`: in such a document as many spreads deep as there are
    fragments is deep enough.
-/

import QueryCost.Pass
import QueryCost.Proofs.Cost.Refold
import Mathlib.Data.List.Perm.Subperm

namespace QueryCost

/-! ## Fields -/

/-- The type a field leads to, by the type it is selected on. -/
def Schema.landing (s : Schema) (parent : Option TypeEntry) (field : String) : Option TypeEntry :=
  (parent.bind (·.field? field)).bind fun f => s.type? f.target

/-- The flat cost of the type. -/
def Schema.landingCost (s : Schema) (landing : Option TypeEntry) : Size :=
  match landing.bind s.typeCost with
  | some (.flat complexity) => complexity.getD 0
  | _ => 0

/-- The list sizes of a field; none where its cost names size arguments and the variables
    have no values. -/
def listSizes (field : Field) (entry : FieldEntry) (cost : Option DeclaredCost) (values : Option Variables) :
    Option (List Size) :=
  match cost.bind (·.sizeArguments?) with
  | none => some []
  | some names => values.map (Pass.sizes field entry names)

/-- What a field counts for. -/
inductive FieldRole where
  | nothing
  /-- What is below it. -/
  | passing
  | counted (cost : Option DeclaredCost) (landing : Size) (sizes : List Size)
  deriving DecidableEq, Repr

def fieldRole (schema : Schema) (values : Option Variables) (parent : Option TypeEntry) (field : Field) : FieldRole :=
  if isIntrospection field.name then .nothing
  else
    match parent with
    | none => .nothing
    | some t =>
      if t.isUnion then .passing
      else
        match t.field? field.name with
        | none => .nothing
        | some entry =>
          let cost := schema.fieldCost t field.name
          match listSizes field entry cost values with
          | none => .nothing
          | some sizes => .counted cost (schema.landingCost (schema.landing parent field.name)) sizes

/-- What a field costs when what is below it costs `below`. A list costs its base once for
    every element, by the sizes given or else by the size assumed. -/
def fieldCharge (defaultComplexity : Size) (cost : Option DeclaredCost) (landing : Size) (sizes : List Size)
    (below : Size) : Size :=
  match cost with
  | some (.list complexity assumedSize _) =>
    (complexity.getD 0 + landing + below) * if sizes.isEmpty then assumedSize.getD 0 else sizes.sum
  | some (.flat complexity) => complexity.getD defaultComplexity + below
  | none => defaultComplexity + below

/-! ## Selections -/

section

variable (schema : Schema) (defaultComplexity : Size) (values : Option Variables) (spread : String → Option Size)

mutual

/-- What a selection on a type costs, where `spread` says what the spreads cost. -/
def Selection.cost : Option TypeEntry → Selection → Option Size
  | parent, .field f below =>
    match fieldRole schema values parent f with
    | .nothing => some 0
    | .passing => costAll (schema.landing parent f.name) below
    | .counted cost landing sizes =>
      (costAll (schema.landing parent f.name) below).map (fieldCharge defaultComplexity cost landing sizes)
  | _, .inline (some t) _ below => costAll (schema.type? t) below
  | parent, .inline none _ below => costAll parent below
  | _, .spread f _ => spread f

def Selection.costAll : Option TypeEntry → List Selection → Option Size
  | _, [] => some 0
  | parent, s :: rest => do
    let first ← cost parent s
    let others ← costAll parent rest
    some (first + others)

end

end

/-! ## Documents -/

/-- The values of variables, where they can be coerced. -/
def coercedValues (definitions : List VariableDefinition) (supplied : Variables) : Option Variables :=
  (coerceVariables definitions supplied).toOption

namespace Document

variable (document : Document) (schema : Schema) (defaultComplexity : Size) (supplied : Variables)

/-- What a spread costs, to a depth of spreads below it. An unknown fragment costs nothing. -/
def spreadCost : Nat → String → Option Size
  | 0, f => if (document.fragment? f).isSome then none else some 0
  | depth + 1, f =>
    match document.fragment? f with
    | none => some 0
    | some fragment =>
      Selection.costAll schema defaultComplexity (coercedValues document.fragmentScopeDefinitions supplied)
        (spreadCost depth) (schema.type? fragment.condition) fragment.selections

def operationCost (depth : Nat) (op : Operation) : Option Size :=
  Selection.costAll schema defaultComplexity (coercedValues op.variableDefinitions supplied)
    (document.spreadCost schema defaultComplexity supplied depth) (schema.root? op.kind) op.selections

/-- The sum over all operations. -/
def cost (depth : Nat) : Option Size :=
  (document.operations.values.mapM (document.operationCost schema defaultComplexity supplied depth)).map List.sum

end Document

/-! ## Acyclic documents -/

mutual

/-- The names a selection spreads. -/
def Selection.spreads : Selection → List String
  | .field _ below => spreadsAll below
  | .inline _ _ below => spreadsAll below
  | .spread f _ => [f]

def Selection.spreadsAll : List Selection → List String
  | [] => []
  | s :: rest => s.spreads ++ spreadsAll rest

end

theorem Selection.spreadsAll_append (selections selections' : List Selection) :
    spreadsAll (selections ++ selections') = spreadsAll selections ++ spreadsAll selections' := by
  induction selections with
  | nil => rfl
  | cons s rest ih => rw [List.cons_append, spreadsAll, spreadsAll, ih, List.append_assoc]

namespace Document

open Relation

/-- The first fragment spreads the second. -/
def Spreads (document : Document) (f g : String) : Prop :=
  ∃ fragment, document.fragment? f = some fragment ∧ g ∈ Selection.spreadsAll fragment.selections

/-- An operation spreads the name, or a fragment that is reached does. -/
def Reached (document : Document) (f : String) : Prop :=
  ∃ op ∈ document.operations.values, ∃ g ∈ Selection.spreadsAll op.selections, ReflTransGen document.Spreads g f

/-- No fragment that is reached spreads itself. -/
def Acyclic (document : Document) : Prop := ∀ f, document.Reached f → ¬ TransGen document.Spreads f f

end Document

section

variable {schema : Schema} {defaultComplexity : Size} {values : Option Variables} {spread : String → Option Size}

mutual

/-- A selection has a cost when all it spreads have one. -/
theorem Selection.cost_isSome (parent : Option TypeEntry) (s : Selection) (h : ∀ f ∈ s.spreads, (spread f).isSome) :
    (s.cost schema defaultComplexity values spread parent).isSome := by
  cases s with
  | field f below =>
    have hbelow := costAll_isSome (schema.landing parent f.name) below h
    simp only [cost]
    cases fieldRole schema values parent f with
    | nothing => rfl
    | passing => exact hbelow
    | counted cost landing sizes => simpa using hbelow
  | inline condition directives below =>
    cases condition with
    | none => exact costAll_isSome parent below h
    | some t => exact costAll_isSome (schema.type? t) below h
  | spread f directives => exact h f (List.mem_singleton.mpr rfl)

theorem Selection.costAll_isSome (parent : Option TypeEntry) (selections : List Selection)
    (h : ∀ f ∈ spreadsAll selections, (spread f).isSome) :
    (costAll schema defaultComplexity values spread parent selections).isSome := by
  cases selections with
  | nil => rfl
  | cons s rest =>
    have hs := cost_isSome parent s fun f hf => h f (List.mem_append_left _ hf)
    have hrest := costAll_isSome parent rest fun f hf => h f (List.mem_append_right _ hf)
    obtain ⟨first, hfirst⟩ := Option.isSome_iff_exists.mp hs
    obtain ⟨others, hothers⟩ := Option.isSome_iff_exists.mp hrest
    simp [costAll, hfirst, hothers]

end

end

namespace Document

open Relation

variable {document : Document} {schema : Schema} {defaultComplexity : Size} {supplied : Variables}

theorem mem_keys_of_fragment? {f : String} {fragment : Fragment} (h : document.fragment? f = some fragment) :
    f ∈ document.fragments.keys :=
  List.mem_map_of_mem (document.fragments.get?_eq_some_iff.mp h)

/-- A spread has a cost when the depth left is as many as the fragments not begun: the
    fragments begun lead to it, so it is none of them. -/
theorem spreadCost_isSome (depth : Nat) {begun : List String} {f : String} (hdistinct : begun.Nodup)
    (hknown : ∀ g ∈ begun, g ∈ document.fragments.keys) (hleads : ∀ g ∈ begun, TransGen document.Spreads g f)
    (hacyclic : ∀ g, ReflTransGen document.Spreads f g → ¬ TransGen document.Spreads g g)
    (hdepth : document.fragments.keys.length ≤ begun.length + depth) :
    (document.spreadCost schema defaultComplexity supplied depth f).isSome := by
  have hnew : f ∉ begun := fun hf => hacyclic f .refl (hleads f hf)
  induction depth generalizing begun f with
  | zero =>
    unfold spreadCost
    cases hf : document.fragment? f with
    | none => rfl
    | some fragment =>
      -- with this one more would be begun than there are
      have hmore : (f :: begun).Subperm document.fragments.keys := by
        refine List.subperm_of_subset (List.nodup_cons.mpr ⟨hnew, hdistinct⟩) fun g hg => ?_
        rcases List.mem_cons.mp hg with rfl | hg
        · exact mem_keys_of_fragment? hf
        · exact hknown g hg
      have := hmore.length_le
      simp only [List.length_cons] at this
      omega
  | succ depth ih =>
    unfold spreadCost
    cases hf : document.fragment? f with
    | none => rfl
    | some fragment =>
      refine Selection.costAll_isSome _ _ fun g hg => ?_
      have hfg : document.Spreads f g := ⟨fragment, hf, hg⟩
      have hacyclic' : ∀ h, ReflTransGen document.Spreads g h → ¬ TransGen document.Spreads h h :=
        fun h hh => hacyclic h (.head hfg hh)
      have hleads' : ∀ h ∈ f :: begun, TransGen document.Spreads h g := by
        intro h hh
        rcases List.mem_cons.mp hh with rfl | hh
        · exact .single hfg
        · exact .tail (hleads h hh) hfg
      refine ih (List.nodup_cons.mpr ⟨hnew, hdistinct⟩) ?_ hleads' hacyclic' ?_ ?_
      · intro h hh
        rcases List.mem_cons.mp hh with rfl | hh
        · exact mem_keys_of_fragment? hf
        · exact hknown h hh
      · simp only [List.length_cons]
        omega
      · exact fun hh => hacyclic' g .refl (hleads' g hh)

/-- A document in which spreads go down a rank is acyclic. -/
theorem acyclic_of_rank (rank : String → Nat)
    (h : ∀ entry ∈ document.fragments.entries, ∀ g ∈ Selection.spreadsAll entry.2.selections,
      rank g < rank entry.1) : document.Acyclic := by
  have hlt : ∀ f g, TransGen document.Spreads f g → rank g < rank f := by
    intro f g hfg
    induction hfg with
    | single hs =>
      obtain ⟨fragment, hf, hg⟩ := hs
      exact h _ (document.fragments.get?_eq_some_iff.mp hf) _ hg
    | tail _ hs ih =>
      obtain ⟨fragment, hf, hg⟩ := hs
      exact Nat.lt_trans (h _ (document.fragments.get?_eq_some_iff.mp hf) _ hg) ih
  exact fun f _ hff => Nat.lt_irrefl _ (hlt f f hff)

theorem exists_cost_of_acyclic (hacyclic : document.Acyclic) {depth : Nat}
    (hdepth : document.fragments.keys.length ≤ depth) :
    ∃ total, document.cost schema defaultComplexity supplied depth = some total := by
  let each : Operation → Size := fun op =>
    (document.operationCost schema defaultComplexity supplied depth op).getD 0
  have heach : ∀ op ∈ document.operations.values,
      document.operationCost schema defaultComplexity supplied depth op = some (each op) := by
    intro op hop
    have hsome : (document.operationCost schema defaultComplexity supplied depth op).isSome := by
      refine Selection.costAll_isSome _ _ fun f hf => ?_
      refine spreadCost_isSome depth List.nodup_nil nofun nofun (fun g hg => ?_) (by simpa using hdepth)
      exact hacyclic g ⟨op, hop, f, hf, hg⟩
    obtain ⟨v, hv⟩ := Option.isSome_iff_exists.mp hsome
    simp only [each, hv, Option.getD_some]
  have hall := mapM_eq_some_iff.mpr (List.forall₂_map_right_iff.mpr (List.forall₂_same.mpr heach))
  exact ⟨(document.operations.values.map each).sum, by rw [cost, hall, Option.map_some]⟩

end Document

end QueryCost
