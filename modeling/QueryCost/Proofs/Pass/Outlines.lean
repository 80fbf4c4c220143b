/-
  QueryCost.Proofs.Pass.Outlines — the outlines of a document, and what they cost.

  The outlines of selections are what their walk adds to the tree: nothing for a field
  that counts nothing, what is below a field on a union in its place, and nothing for the
  spread of an unknown fragment. A tree that holds the body of every fragment `Stands`
  for the document.

  - `costAll_eq_outlines`: selections cost what their outlines cost.
  - `Outline.refolds_grownAll`: what has grown from outlines costs what they cost, and
    `Outline.costAll_of_refold`: where it has a cost, they have it.
  - `refolds_spreadCost`: in a tree that stands for the document, a spread costs what the
    document says at any depth that is enough, and `spreadCost_of_refold`: at a depth that
    is enough in the tree, the document says what it costs.
-/

import QueryCost.Proofs.Cost.Exact
import QueryCost.Proofs.Cost.Outline
import QueryCost.Proofs.DirectCost
import Mathlib.Data.Option.NAry

namespace QueryCost

/-! ## Outlines -/

section

variable (document : Document) (schema : Schema) (values : Option Variables)

mutual

def Selection.outlines : Option TypeEntry → Selection → List Outline
  | parent, .field f below =>
    match fieldRole schema values parent f with
    | .nothing => []
    | .passing => outlinesAll (schema.landing parent f.name) below
    | .counted cost landing sizes =>
      [.field cost landing sizes (outlinesAll (schema.landing parent f.name) below)]
  | _, .inline (some t) _ below => outlinesAll (schema.type? t) below
  | parent, .inline none _ below => outlinesAll parent below
  | _, .spread f _ => if (document.fragment? f).isSome then [.spread f] else []

def Selection.outlinesAll : Option TypeEntry → List Selection → List Outline
  | _, [] => []
  | parent, s :: rest => outlines parent s ++ outlinesAll parent rest

end

theorem Selection.outlinesAll_append (parent : Option TypeEntry) (selections selections' : List Selection) :
    outlinesAll document schema values parent (selections ++ selections') =
      outlinesAll document schema values parent selections ++ outlinesAll document schema values parent selections' := by
  induction selections with
  | nil => rfl
  | cons s rest ih => rw [List.cons_append, outlinesAll, outlinesAll, ih, List.append_assoc]

theorem Selection.outlinesAll_singleton (parent : Option TypeEntry) (s : Selection) :
    outlinesAll document schema values parent [s] = s.outlines document schema values parent := by
  rw [outlinesAll, outlinesAll, List.append_nil]

end

namespace Document

variable (document : Document) (schema : Schema) (supplied : Variables)

/-- The outlines of an operation whose variables have these values. -/
def operationOutlines (values : Option Variables) (op : Operation) : List Outline :=
  Selection.outlinesAll document schema values (schema.root? op.kind) op.selections

def fragmentOutlines (fragment : Fragment) : List Outline :=
  Selection.outlinesAll document schema (coercedValues document.fragmentScopeDefinitions supplied)
    (schema.type? fragment.condition) fragment.selections

/-- The bodies of the fragments, in the order of the walk. -/
def bodies : List (String × List Outline) :=
  document.fragmentsInOrder.map fun (name, fragment) => (name, document.fragmentOutlines schema supplied fragment)

end Document

/-! ## What they cost -/

theorem fieldCharge_eq (defaultComplexity : Size) (cost : Option DeclaredCost) (landing : Size) (sizes : List Size)
    (children : List Child) (below : Size) :
    fieldCharge defaultComplexity cost landing sizes below =
      (CostNode.mk (.field cost) landing sizes children).complexity defaultComplexity below := by
  rcases cost with _ | complexity | ⟨complexity, assumedSize, names⟩
  · rfl
  · rfl
  · let n : CostNode := ⟨.field (some (.list complexity assumedSize names)), landing, sizes, children⟩
    have hlist : n.kind = .field (some (.list complexity assumedSize names)) := rfl
    exact (CostNode.complexity_list hlist defaultComplexity below).symm

section

variable (defaultComplexity : Size) (spread : String → Option Size)

mutual

/-- What an outline costs, where `spread` says what the spreads cost. -/
def Outline.cost : Outline → Option Size
  | .field cost landing sizes below => (costAll below).map (fieldCharge defaultComplexity cost landing sizes)
  | .spread f => spread f

def Outline.costAll : List Outline → Option Size
  | [] => some 0
  | o :: rest => Option.map₂ (· + ·) o.cost (costAll rest)

end

end

section

variable {document : Document} {schema : Schema} {values : Option Variables} {defaultComplexity : Size}
  {spread : String → Option Size}

theorem Outline.costAll_singleton (o : Outline) :
    costAll defaultComplexity spread [o] = o.cost defaultComplexity spread := by
  simp only [costAll]
  cases o.cost defaultComplexity spread <;> simp

theorem Outline.costAll_append (os os' : List Outline) :
    costAll defaultComplexity spread (os ++ os') =
      Option.map₂ (· + ·) (costAll defaultComplexity spread os) (costAll defaultComplexity spread os') := by
  induction os with
  | nil => cases h : costAll defaultComplexity spread os' <;> simp [costAll, h]
  | cons o rest ih =>
    simp only [List.cons_append, costAll, ih]
    exact (Option.map₂_assoc add_assoc).symm

theorem Selection.costAll_cons (parent : Option TypeEntry) (s : Selection) (rest : List Selection) :
    costAll schema defaultComplexity values spread parent (s :: rest) =
      Option.map₂ (· + ·) (s.cost schema defaultComplexity values spread parent)
        (costAll schema defaultComplexity values spread parent rest) := by
  simp only [costAll]
  cases s.cost schema defaultComplexity values spread parent with
  | none => rfl
  | some first => cases costAll schema defaultComplexity values spread parent rest <;> rfl

mutual

/-- A selection costs what its outlines cost, where unknown fragments cost nothing. -/
theorem Selection.cost_eq_outlines (hundefined : ∀ f, document.fragment? f = none → spread f = some 0)
    (parent : Option TypeEntry) (s : Selection) :
    s.cost schema defaultComplexity values spread parent =
      Outline.costAll defaultComplexity spread (s.outlines document schema values parent) := by
  cases s with
  | field f below =>
    simp only [cost, outlines]
    have hbelow := costAll_eq_outlines hundefined (schema.landing parent f.name) below
    cases fieldRole schema values parent f with
    | nothing => rfl
    | passing => exact hbelow
    | counted cost landing sizes => rw [hbelow, Outline.costAll_singleton, Outline.cost]
  | inline condition directives below =>
    cases condition with
    | none => exact costAll_eq_outlines hundefined parent below
    | some t => exact costAll_eq_outlines hundefined (schema.type? t) below
  | spread f directives =>
    simp only [cost, outlines]
    cases hf : document.fragment? f with
    | none => exact hundefined f hf
    | some fragment => exact (Outline.costAll_singleton (.spread f)).symm

theorem Selection.costAll_eq_outlines (hundefined : ∀ f, document.fragment? f = none → spread f = some 0)
    (parent : Option TypeEntry) (selections : List Selection) :
    costAll schema defaultComplexity values spread parent selections =
      Outline.costAll defaultComplexity spread (outlinesAll document schema values parent selections) := by
  cases selections with
  | nil => rfl
  | cons s rest =>
    rw [costAll_cons, cost_eq_outlines hundefined parent s, costAll_eq_outlines hundefined parent rest, outlinesAll,
      Outline.costAll_append]

end

/-! ## What grows from them costs the same -/

variable {t : CostTree} {lo : Nat}

mutual

/-- A child that has grown from an outline costs what the outline costs, when spreads do. -/
theorem Outline.refolds_grown
    (hspread : ∀ f v, spread f = some v → t.RefoldsChild (·.complexity defaultComplexity) (.fragment f) v)
    (o : Outline) {c : Child} {v : Size} (hgrown : t.Grown lo o c)
    (hcost : o.cost defaultComplexity spread = some v) : t.RefoldsChild (·.complexity defaultComplexity) c v := by
  cases o with
  | field cost landing sizes below =>
    obtain ⟨b, hb, rfl⟩ := Option.map_eq_some_iff.mp hcost
    cases hgrown with
    | @field id _ _ _ _ children hlo hlt hnode hbelow =>
      obtain ⟨vs, hvs, rfl⟩ := refolds_grownAll hspread below hbelow hb
      refine CostTree.refolds_iff.mpr ⟨vs, by rw [hnode]; exact hvs, ?_⟩
      rw [hnode]
      exact fieldCharge_eq defaultComplexity cost landing sizes children vs.sum
  | spread f =>
    cases hgrown
    exact hspread f v hcost

theorem Outline.refolds_grownAll
    (hspread : ∀ f v, spread f = some v → t.RefoldsChild (·.complexity defaultComplexity) (.fragment f) v)
    (os : List Outline) {cs : List Child} {v : Size} (hgrown : t.GrownAll lo os cs)
    (hcost : costAll defaultComplexity spread os = some v) :
    ∃ vs, List.Forall₂ (t.RefoldsChild (·.complexity defaultComplexity)) cs vs ∧ vs.sum = v := by
  cases os with
  | nil =>
    cases hgrown
    exact ⟨[], .nil, Option.some.inj hcost⟩
  | cons o rest =>
    cases hgrown with
    | cons ho hrest =>
      obtain ⟨first, others, hfirst, hothers, rfl⟩ := Option.map₂_eq_some_iff.mp hcost
      obtain ⟨vs, hvs, rfl⟩ := refolds_grownAll hspread rest hrest hothers
      exact ⟨first :: vs, .cons (refolds_grown hspread o ho hfirst) hvs, List.sum_cons⟩

end

mutual

/-- Where a child that has grown from an outline has a value, the outline costs it, when
    spreads cost theirs. -/
theorem Outline.cost_of_refold {depth : Nat}
    (hspread : ∀ f v, t.childValue (t.refold (·.complexity defaultComplexity) depth) (.fragment f) = some v →
      spread f = some v)
    (o : Outline) {c : Child} {v : Size} (hgrown : t.Grown lo o c)
    (hvalue : t.childValue (t.refold (·.complexity defaultComplexity) depth) c = some v) :
    o.cost defaultComplexity spread = some v := by
  cases o with
  | field cost landing sizes below =>
    cases hgrown with
    | @field id _ _ _ _ children hlo hlt hnode hbelow =>
      -- a node has a value one deeper than its children
      obtain _ | depth' := depth
      · cases hvalue
      · obtain ⟨us, hus, rfl⟩ := CostTree.refold_succ_eq_some.mp hvalue
        rw [hnode] at hus
        have hdeeper := hus.imp fun child b hb => CostTree.childValue_imp (fun _ _ => CostTree.refold_succ) hb
        rw [Outline.cost, costAll_of_refold hspread below hbelow hdeeper, hnode, Option.map_some,
          fieldCharge_eq defaultComplexity cost landing sizes children us.sum]
  | spread f =>
    cases hgrown
    exact hspread f v hvalue

theorem Outline.costAll_of_refold {depth : Nat}
    (hspread : ∀ f v, t.childValue (t.refold (·.complexity defaultComplexity) depth) (.fragment f) = some v →
      spread f = some v)
    (os : List Outline) {cs : List Child} {vs : List Size} (hgrown : t.GrownAll lo os cs)
    (hvalues : List.Forall₂
      (fun child v => t.childValue (t.refold (·.complexity defaultComplexity) depth) child = some v) cs vs) :
    costAll defaultComplexity spread os = some vs.sum := by
  cases os with
  | nil =>
    cases hgrown
    cases hvalues
    rfl
  | cons o rest =>
    cases hgrown with
    | cons ho hrest =>
      obtain ⟨v, ws, hv, hws, rfl⟩ := List.forall₂_cons_left_iff.mp hvalues
      rw [costAll, cost_of_refold hspread o ho hv, costAll_of_refold hspread rest hrest hws, List.sum_cons,
        Option.map₂_some_some]

end

end

/-! ## Spreads -/

namespace CostTree

/-- The tree holds the bodies of the document's fragments. -/
def Stands (t : CostTree) (document : Document) (schema : Schema) (supplied : Variables) : Prop :=
  ∀ f fragment, document.fragment? f = some fragment →
    t.HoldsBody f (document.fragmentOutlines schema supplied fragment)

end CostTree

namespace Document

variable {document : Document} {schema : Schema} {supplied : Variables} {defaultComplexity : Size} {t : CostTree}

theorem spreadCost_of_undefined (depth : Nat) {f : String} (hf : document.fragment? f = none) :
    document.spreadCost schema defaultComplexity supplied depth f = some 0 := by
  cases depth <;> simp [spreadCost, hf]

theorem refolds_spreadCost (ht : t.Stands document schema supplied)
    (hundefined : ∀ f, document.fragment? f = none → t.fragments.get? f = none) (depth : Nat) {f : String} {v : Size}
    (h : document.spreadCost schema defaultComplexity supplied depth f = some v) :
    t.RefoldsChild (·.complexity defaultComplexity) (.fragment f) v := by
  induction depth generalizing f v with
  | zero =>
    cases hf : document.fragment? f with
    | none =>
      rw [spreadCost_of_undefined _ hf] at h
      exact (CostTree.refoldsChild_undefined (hundefined f hf)).mpr (Option.some.inj h).symm
    | some fragment => simp [spreadCost, hf] at h
  | succ depth ih =>
    cases hf : document.fragment? f with
    | none =>
      rw [spreadCost_of_undefined _ hf] at h
      exact (CostTree.refoldsChild_undefined (hundefined f hf)).mpr (Option.some.inj h).symm
    | some fragment =>
      simp only [spreadCost, hf] at h
      obtain ⟨body, lo, cs, hbody, -, hnode, hgrown⟩ := ht f fragment hf
      rw [Selection.costAll_eq_outlines fun g hg => spreadCost_of_undefined depth hg] at h
      obtain ⟨vs, hvs, rfl⟩ := Outline.refolds_grownAll (fun g w hw => ih hw) _ hgrown h
      refine (CostTree.refoldsChild_fragment hbody).mpr (CostTree.refolds_iff.mpr ⟨vs, ?_, ?_⟩)
      · rw [hnode]
        exact hvs
      · rw [hnode]
        rfl

theorem spreadCost_of_refold (ht : t.Stands document schema supplied)
    (hundefined : ∀ f, document.fragment? f = none → t.fragments.get? f = none) (depth : Nat) {f : String} {v : Size}
    (h : t.childValue (t.refold (·.complexity defaultComplexity) depth) (.fragment f) = some v) :
    document.spreadCost schema defaultComplexity supplied depth f = some v := by
  induction depth generalizing f v with
  | zero =>
    cases hf : document.fragment? f with
    | none =>
      rw [spreadCost_of_undefined 0 hf]
      simpa [CostTree.childValue, CostTree.target?, hundefined f hf] using h
    | some fragment =>
      obtain ⟨body, lo, cs, hbody, -⟩ := ht f fragment hf
      simp [CostTree.childValue, CostTree.target?, hbody, CostTree.refold] at h
  | succ depth ih =>
    cases hf : document.fragment? f with
    | none =>
      rw [spreadCost_of_undefined _ hf]
      simpa [CostTree.childValue, CostTree.target?, hundefined f hf] using h
    | some fragment =>
      obtain ⟨body, lo, cs, hbody, -, hnode, hgrown⟩ := ht f fragment hf
      simp only [CostTree.childValue, CostTree.target?, hbody] at h
      obtain ⟨vs, hvs, rfl⟩ := CostTree.refold_succ_eq_some.mp h
      rw [hnode] at hvs
      simp only [spreadCost, hf, hnode]
      rw [Selection.costAll_eq_outlines fun g hg => spreadCost_of_undefined depth hg]
      exact Outline.costAll_of_refold (fun g w hw => ih hw) _ hgrown hvs

end Document

end QueryCost
