/-
  QueryCost.Proofs.Rewriting.Alike — documents that differ in their selections only.

  Two documents are `Alike` when they have the same definitions in the same places, and the
  selections of each definition are related by some relation. Then they have the same scopes
  of variables and the same fragments, and go through their definitions in the same order.

  Costs of alike documents are compared by relations that sums and charges keep
  (`CostRelation`): a value that is known on one side is known on the other, or is at least
  as large. To relate what is published it is enough to relate what the selections cost.

  - `cost_related`: what related selections cost adds up to related costs of the documents.
  - `complexity_congr`: documents that have the same costs publish the same.
-/

import QueryCost.Proofs.Pass.Refinement
import Mathlib.Algebra.Order.BigOperators.Group.List

namespace QueryCost

/-! ## Alike documents -/

section

variable (R : List Selection → List Selection → Prop)

structure Operation.Alike (op op' : Operation) : Prop where
  position : op'.position = op.position
  kind : op'.kind = op.kind
  variableDefinitions : op'.variableDefinitions = op.variableDefinitions
  selections : R op.selections op'.selections

structure Fragment.Alike (f f' : Fragment) : Prop where
  position : f'.position = f.position
  condition : f'.condition = f.condition
  selections : R f.selections f'.selections

/-- The same definitions in the same places, with related selections. -/
structure Document.Alike (document document' : Document) : Prop where
  operations : List.Forall₂ (fun entry entry' => entry'.1 = entry.1 ∧ entry.2.Alike R entry'.2)
    document.operations.entries document'.operations.entries
  fragments : List.Forall₂ (fun entry entry' => entry'.1 = entry.1 ∧ entry.2.Alike R entry'.2)
    document.fragments.entries document'.fragments.entries

end

theorem map_eq_of_forall₂ {α β γ : Type} {R : α → β → Prop} {f : α → γ} {g : β → γ} (hR : ∀ a b, R a b → g b = f a)
    {l : List α} {l' : List β} (h : List.Forall₂ R l l') : l'.map g = l.map f := by
  induction h with
  | nil => rfl
  | cons hab _ ih => rw [List.map_cons, List.map_cons, ih, hR _ _ hab]

theorem exists_mem_of_forall₂ {α β : Type} {R : α → β → Prop} {l : List α} {l' : List β} (h : List.Forall₂ R l l')
    {b : β} (hb : b ∈ l') : ∃ a ∈ l, R a b := by
  induction h with
  | nil => cases hb
  | @cons a b' _ _ hab _ ih =>
    rcases List.mem_cons.mp hb with rfl | hb
    · exact ⟨a, List.mem_cons_self .., hab⟩
    · obtain ⟨a', ha', hR⟩ := ih hb
      exact ⟨a', List.mem_cons_of_mem _ ha', hR⟩

theorem forall₂_insertAt {α : Type} {R : α → α → Prop} {pos : α → Position} (hR : ∀ a b, R a b → pos b = pos a)
    {a a' : α} (ha : R a a') {l l' : List α} (h : List.Forall₂ R l l') :
    List.Forall₂ R (insertAt pos a l) (insertAt pos a' l') := by
  induction h with
  | nil => exact .cons ha .nil
  | @cons b b' _ _ hb hrest ih =>
    unfold insertAt
    rw [hR a a' ha, hR b b' hb]
    split
    · exact .cons ha (.cons hb hrest)
    · exact .cons hb ih

/-- Elements in the same places are sorted in the same way. -/
theorem forall₂_sortByPosition {α : Type} {R : α → α → Prop} {pos : α → Position} (hR : ∀ a b, R a b → pos b = pos a)
    {l l' : List α} (h : List.Forall₂ R l l') :
    List.Forall₂ R (sortByPosition pos l) (sortByPosition pos l') := by
  induction h with
  | nil => exact .nil
  | cons ha _ ih => exact forall₂_insertAt hR ha ih

theorem rel_get?_of_forall₂ {α : Type} {R : α → α → Prop} (key : String) {l l' : List (String × α)}
    (h : List.Forall₂ (fun entry entry' => entry'.1 = entry.1 ∧ R entry.2 entry'.2) l l') :
    Option.Rel R (Entries.get? key l) (Entries.get? key l') := by
  induction h with
  | nil => exact .none
  | @cons entry entry' _ _ hentry _ ih =>
    obtain ⟨k, v⟩ := entry
    obtain ⟨k', v'⟩ := entry'
    obtain ⟨rfl, hv⟩ := hentry
    unfold Entries.get?
    split
    · exact .some hv
    · exact ih

namespace Document.Alike

variable {R : List Selection → List Selection → Prop} {document document' : Document}

theorem fragment? (h : document.Alike R document') (f : String) :
    Option.Rel (Fragment.Alike R) (document.fragment? f) (document'.fragment? f) :=
  rel_get?_of_forall₂ f h.fragments

theorem values (h : document.Alike R document') :
    List.Forall₂ (Operation.Alike R) document.operations.values document'.operations.values :=
  List.forall₂_map_left_iff.mpr (List.forall₂_map_right_iff.mpr (h.operations.imp fun _ _ hop => hop.2))

theorem operationsInOrder (h : document.Alike R document') :
    List.Forall₂ (fun entry entry' => entry'.1 = entry.1 ∧ entry.2.Alike R entry'.2)
      document.operationsInOrder document'.operationsInOrder :=
  forall₂_sortByPosition (fun _ _ hop => hop.2.position) h.operations

theorem fragmentsInOrder (h : document.Alike R document') :
    List.Forall₂ (fun entry entry' => entry'.1 = entry.1 ∧ entry.2.Alike R entry'.2)
      document.fragmentsInOrder document'.fragmentsInOrder :=
  forall₂_sortByPosition (fun _ _ hf => hf.2.position) h.fragments

theorem fragmentScopeDefinitions (h : document.Alike R document') :
    document'.fragmentScopeDefinitions = document.fragmentScopeDefinitions := by
  have hsame := map_eq_of_forall₂ (f := fun entry => entry.2.variableDefinitions)
    (g := fun entry => entry.2.variableDefinitions) (fun _ _ hop => hop.2.variableDefinitions) h.operationsInOrder
  unfold Document.fragmentScopeDefinitions
  rw [List.flatMap_def, List.flatMap_def, hsame]

theorem positions (h : document.Alike R document') :
    document'.operations.values.map (·.position) = document.operations.values.map (·.position) :=
  map_eq_of_forall₂ (fun _ _ hop => hop.position) h.values

theorem scopesAgree (h : document.Alike R document') (hscopes : document.ScopesAgree) : document'.ScopesAgree := by
  intro op₁ hop₁ op₂ hop₂ hposition
  obtain ⟨op₁', hop₁', h₁⟩ := exists_mem_of_forall₂ h.values hop₁
  obtain ⟨op₂', hop₂', h₂⟩ := exists_mem_of_forall₂ h.values hop₂
  rw [h₁.variableDefinitions, h₂.variableDefinitions]
  exact hscopes op₁' hop₁' op₂' hop₂' (by rw [← h₁.position, ← h₂.position, hposition])

end Document.Alike

/-! ## Related costs -/

/-- What a field costs grows with the default, with its sizes and with what is below it. -/
theorem fieldCharge_mono {defaultComplexity defaultComplexity' : Size} (hdefault : defaultComplexity ≤ defaultComplexity')
    (cost : Option DeclaredCost) (landing : Size) {sizes sizes' : List Size}
    (hsizes : List.Forall₂ (· ≤ ·) sizes sizes') {below below' : Size} (hbelow : below ≤ below') :
    fieldCharge defaultComplexity cost landing sizes below ≤ fieldCharge defaultComplexity' cost landing sizes' below' := by
  rcases cost with _ | complexity | ⟨complexity, assumedSize, names⟩
  · exact add_le_add hdefault hbelow
  · have hown : complexity.getD defaultComplexity ≤ complexity.getD defaultComplexity' := by
      cases complexity with
      | none => exact hdefault
      | some complexity => exact le_refl complexity
    exact add_le_add hown hbelow
  · have hbase : complexity.getD 0 + landing + below ≤ complexity.getD 0 + landing + below' := add_le_add (le_refl _) hbelow
    have hfactor : (if sizes.isEmpty then assumedSize.getD 0 else sizes.sum) ≤
        if sizes'.isEmpty then assumedSize.getD 0 else sizes'.sum := by
      -- both lists are empty or neither is
      cases hsizes with
      | nil => exact le_refl _
      | cons hfirst hrest => exact List.Forall₂.sum_le_sum (.cons hfirst hrest)
    exact mul_le_mul hbase hfactor (Size.zero_le _) (Size.zero_le _)

/-- A relation between costs that sums and charges keep. -/
structure CostRelation (defaultComplexity : Size) (P : Option Size → Option Size → Prop) : Prop where
  zero : P (some 0) (some 0)
  add {x y x' y' : Option Size} : P x y → P x' y' → P (Option.map₂ (· + ·) x x') (Option.map₂ (· + ·) y y')
  charge {x y : Option Size} (cost : Option DeclaredCost) (landing : Size) (sizes : List Size) : P x y →
    P (x.map (fieldCharge defaultComplexity cost landing sizes)) (y.map (fieldCharge defaultComplexity cost landing sizes))

theorem costRelation_eq (defaultComplexity : Size) : CostRelation defaultComplexity (· = ·) := by
  refine ⟨rfl, ?_, ?_⟩
  · intro x y x' y' h h'
    rw [h, h']
  · intro x y cost landing sizes h
    rw [h]

section

variable {schema : Schema} {defaultComplexity : Size} {values : Option Variables} {spread spread' : String → Option Size}
  {P : Option Size → Option Size → Prop}

/-- A field's cost is related where the cost of what is below it is. -/
theorem CostRelation.field (hP : CostRelation defaultComplexity P) (parent : Option TypeEntry) (f : Field)
    {below below' : List Selection}
    (h : ∀ parent, P (Selection.costAll schema defaultComplexity values spread parent below)
      (Selection.costAll schema defaultComplexity values spread' parent below')) :
    P ((Selection.field f below).cost schema defaultComplexity values spread parent)
      ((Selection.field f below').cost schema defaultComplexity values spread' parent) := by
  simp only [Selection.cost]
  cases fieldRole schema values parent f with
  | nothing => exact hP.zero
  | passing => exact h _
  | counted cost landing sizes => exact hP.charge cost landing sizes (h _)

theorem CostRelation.inline (parent : Option TypeEntry) (condition : Option String)
    {directives directives' : List (Directive String)} {below below' : List Selection}
    (h : ∀ parent, P (Selection.costAll schema defaultComplexity values spread parent below)
      (Selection.costAll schema defaultComplexity values spread' parent below')) :
    P ((Selection.inline condition directives below).cost schema defaultComplexity values spread parent)
      ((Selection.inline condition directives' below').cost schema defaultComplexity values spread' parent) := by
  cases condition with
  | none => exact h parent
  | some t => exact h (schema.type? t)

theorem CostRelation.cons (hP : CostRelation defaultComplexity P) {parent : Option TypeEntry} {s s' : Selection}
    {rest rest' : List Selection}
    (hs : P (s.cost schema defaultComplexity values spread parent) (s'.cost schema defaultComplexity values spread' parent))
    (hrest : P (Selection.costAll schema defaultComplexity values spread parent rest)
      (Selection.costAll schema defaultComplexity values spread' parent rest')) :
    P (Selection.costAll schema defaultComplexity values spread parent (s :: rest))
      (Selection.costAll schema defaultComplexity values spread' parent (s' :: rest')) := by
  rw [Selection.costAll_cons, Selection.costAll_cons]
  exact hP.add hs hrest

theorem CostRelation.flip (hP : CostRelation defaultComplexity P) : CostRelation defaultComplexity (flip P) :=
  ⟨hP.zero, fun h h' => hP.add h h', fun cost landing sizes h => hP.charge cost landing sizes h⟩

mutual

/-- Selections have related costs where what they spread has. -/
theorem CostRelation.selection (hP : CostRelation defaultComplexity P) (parent : Option TypeEntry) (s : Selection)
    (hspread : ∀ f ∈ s.spreads, P (spread f) (spread' f)) :
    P (s.cost schema defaultComplexity values spread parent) (s.cost schema defaultComplexity values spread' parent) := by
  cases s with
  | field f below => exact hP.field parent f fun parent => hP.selections parent below hspread
  | inline condition directives below =>
    exact CostRelation.inline parent condition fun parent => hP.selections parent below hspread
  | spread f directives => exact hspread f (List.mem_singleton.mpr rfl)

theorem CostRelation.selections (hP : CostRelation defaultComplexity P) (parent : Option TypeEntry)
    (selections : List Selection) (hspread : ∀ f ∈ Selection.spreadsAll selections, P (spread f) (spread' f)) :
    P (Selection.costAll schema defaultComplexity values spread parent selections)
      (Selection.costAll schema defaultComplexity values spread' parent selections) := by
  cases selections with
  | nil => exact hP.zero
  | cons s rest =>
    have hs := hP.selection parent s fun f hf => hspread f (List.mem_append_left _ hf)
    exact hP.cons hs (hP.selections parent rest fun f hf => hspread f (List.mem_append_right _ hf))

end

theorem CostRelation.sum (hP : CostRelation defaultComplexity P) {α : Type} {f g : α → Option Size} {l l' : List α}
    (h : List.Forall₂ (fun a b => P (f a) (g b)) l l') :
    P ((l.mapM f).map List.sum) ((l'.mapM g).map List.sum) := by
  induction h with
  | nil => exact hP.zero
  | cons hab _ ih =>
    rw [sum_mapM_cons, sum_mapM_cons]
    exact hP.add hab ih

end

namespace Document

variable {R : List Selection → List Selection → Prop} {document document' : Document} {schema : Schema}
  {defaultComplexity : Size} {supplied : Variables} {P : Option Size → Option Size → Prop} {depth depth' : Nat}

/-- Costs of alike documents are related where those of the operations' selections are. -/
theorem cost_related (hP : CostRelation defaultComplexity P) (h : document.Alike R document')
    (hR : ∀ op ∈ document.operations.values, ∀ selections, R op.selections selections →
      P (Selection.costAll schema defaultComplexity (coercedValues op.variableDefinitions supplied)
          (document.spreadCost schema defaultComplexity supplied depth) (schema.root? op.kind) op.selections)
        (Selection.costAll schema defaultComplexity (coercedValues op.variableDefinitions supplied)
          (document'.spreadCost schema defaultComplexity supplied depth') (schema.root? op.kind) selections)) :
    P (document.cost schema defaultComplexity supplied depth) (document'.cost schema defaultComplexity supplied depth') := by
  have hmem := (List.forall₂_and_left _ _).mpr ⟨fun op hop => hop, h.values⟩
  refine hP.sum (hmem.imp fun op op' ⟨hop, halike⟩ => ?_)
  unfold operationCost
  rw [halike.kind, halike.variableDefinitions]
  exact hR op hop _ halike.selections

/-- Without any depth no fragment has a cost, and a name that is none costs nothing. -/
theorem spreadCost_related_zero (hP : CostRelation defaultComplexity P) (hnone : P none none)
    (h : document.Alike R document') (f : String) :
    P (document.spreadCost schema defaultComplexity supplied 0 f)
      (document'.spreadCost schema defaultComplexity supplied 0 f) := by
  have halike := h.fragment? f
  unfold spreadCost
  generalize document.fragment? f = fragment, document'.fragment? f = fragment' at halike
  cases halike with
  | none => exact hP.zero
  | some _ => exact hnone

theorem spreadCost_related_succ (hP : CostRelation defaultComplexity P) (h : document.Alike R document')
    (hR : ∀ (fragment : Fragment) (selections : List Selection), R fragment.selections selections →
      P (Selection.costAll schema defaultComplexity (coercedValues document.fragmentScopeDefinitions supplied)
          (document.spreadCost schema defaultComplexity supplied depth) (schema.type? fragment.condition)
          fragment.selections)
        (Selection.costAll schema defaultComplexity (coercedValues document.fragmentScopeDefinitions supplied)
          (document'.spreadCost schema defaultComplexity supplied depth') (schema.type? fragment.condition)
          selections)) (f : String) :
    P (document.spreadCost schema defaultComplexity supplied (depth + 1) f)
      (document'.spreadCost schema defaultComplexity supplied (depth' + 1) f) := by
  have halike := h.fragment? f
  unfold spreadCost
  rw [h.fragmentScopeDefinitions]
  generalize document.fragment? f = fragment, document'.fragment? f = fragment' at halike
  cases halike with
  | none => exact hP.zero
  | some halike =>
    simp only [halike.condition]
    exact hR _ _ halike.selections

end Document

/-! ## What is published -/

/-- Documents that have the same costs publish the same. -/
theorem complexity_congr {schema : Schema} {document document' : Document} {e : Execution}
    (hscopes : document.ScopesAgree) (hscopes' : document'.ScopesAgree)
    (h : ∀ defaultComplexity total,
      (∃ depth, document.cost schema defaultComplexity e.supplied depth = some total) ↔
        ∃ depth, document'.cost schema defaultComplexity e.supplied depth = some total) :
    (validate schema document e).execution.complexity = (validate schema document' e).execution.complexity := by
  cases ha : schema.analyzer with
  | none => rw [validate_of_no_analyzer ha, validate_of_no_analyzer ha]
  | some a =>
    ext c
    rw [complexity_eq_some_iff ha hscopes, complexity_eq_some_iff ha hscopes', h]

end QueryCost
