/-
  QueryCost.Proofs.Rewriting.Inlining — a spread costs what the body of its fragment costs.

  Wherever a document spreads a fragment there is of its own, in an operation or in the body
  of a fragment, an inline fragment on the same type with the same body may stand for the
  spread (`Selection.Inlined`). In a document of one operation whose variables have distinct
  names the variables of the fragments are those of the operation, so the body costs the same
  in either place.

  A spread goes one deeper than the body that stands for it. So a cost the document has at
  some depth the other has at the same (`inlined_spreadCost`), and a cost the other has at
  some depth the document has at twice that (`spreadCost_inlined`).

  - `inlining_published`: a pass publishes the same for both documents, or nothing for
    either because of a cycle.
-/

import QueryCost.Proofs.Pass.Outcome
import QueryCost.Proofs.Rewriting.Alike

namespace QueryCost

/-- Any of the spreads are replaced, each by the body of its fragment. -/
inductive Selection.Inlined (document : Document) : List Selection → List Selection → Prop
  | nil : Inlined document [] []
  | field (f : Field) {below below' rest rest' : List Selection} : Inlined document below below' →
      Inlined document rest rest' → Inlined document (.field f below :: rest) (.field f below' :: rest')
  | inline (condition : Option String) (directives : List (Directive String))
      {below below' rest rest' : List Selection} : Inlined document below below' → Inlined document rest rest' →
      Inlined document (.inline condition directives below :: rest) (.inline condition directives below' :: rest')
  | spread (f : String) (directives : List (Directive String)) {rest rest' : List Selection} :
      Inlined document rest rest' → Inlined document (.spread f directives :: rest) (.spread f directives :: rest')
  | replaced {f : String} {fragment : Fragment} (directives directives' : List (Directive String))
      {rest rest' : List Selection} : document.fragment? f = some fragment → Inlined document rest rest' →
      Inlined document (.spread f directives :: rest)
        (.inline (some fragment.condition) directives' fragment.selections :: rest')

/-- None needs to be replaced, so it may be a single one anywhere. -/
theorem Selection.Inlined.refl (document : Document) : ∀ selections, Inlined document selections selections
  | [] => .nil
  | .field f below :: rest => .field f (refl document below) (refl document rest)
  | .inline condition directives below :: rest =>
    .inline condition directives (refl document below) (refl document rest)
  | .spread f directives :: rest => .spread f directives (refl document rest)

section

variable {document : Document} {schema : Schema} {defaultComplexity : Size} {values : Option Variables}
  {spread spread' : String → Option Size} {P : Option Size → Option Size → Prop}

theorem Selection.Inlined.cost_related (hP : CostRelation defaultComplexity P) (hspread : ∀ f, P (spread f) (spread' f))
    (hbody : ∀ f fragment, document.fragment? f = some fragment → P (spread f)
      (costAll schema defaultComplexity values spread' (schema.type? fragment.condition) fragment.selections))
    {selections selections' : List Selection} (h : Inlined document selections selections') (parent : Option TypeEntry) :
    P (costAll schema defaultComplexity values spread parent selections)
      (costAll schema defaultComplexity values spread' parent selections') := by
  induction h generalizing parent with
  | nil => exact hP.zero
  | field f _ _ ihbelow ihrest => exact hP.cons (hP.field parent f ihbelow) (ihrest parent)
  | inline condition _ _ _ ihbelow ihrest => exact hP.cons (CostRelation.inline parent condition ihbelow) (ihrest parent)
  | spread f _ _ ihrest => exact hP.cons (hspread f) (ihrest parent)
  | replaced _ _ hf _ ihrest => exact hP.cons (hbody _ _ hf) (ihrest parent)

end

/-- What is known on the one side is the same on the other. -/
theorem costRelation_imp (defaultComplexity : Size) :
    CostRelation defaultComplexity fun x y => ∀ v, x = some v → y = some v := by
  refine ⟨fun _ h => h, ?_, ?_⟩
  · intro x y x' y' hxy hxy' v hv
    obtain ⟨a, b, ha, hb, rfl⟩ := Option.map₂_eq_some_iff.mp hv
    rw [hxy a ha, hxy' b hb]
    rfl
  · intro x y cost landing sizes hxy v hv
    obtain ⟨b, hb, rfl⟩ := Option.map_eq_some_iff.mp hv
    rw [hxy b hb]
    rfl

namespace Document

variable {document document' : Document} {schema : Schema} {defaultComplexity : Size} {supplied : Variables}

/-- The cost of a spread is that of the body, one less deep. -/
theorem spreadCost_eq {f : String} {fragment : Fragment} (hf : document.fragment? f = some fragment) (depth : Nat) :
    document.spreadCost schema defaultComplexity supplied (depth + 1) f =
      Selection.costAll schema defaultComplexity (coercedValues document.fragmentScopeDefinitions supplied)
        (document.spreadCost schema defaultComplexity supplied depth) (schema.type? fragment.condition)
        fragment.selections := by
  simp only [spreadCost, hf]

/-- A spread that has a cost has it one deeper as well. -/
theorem spreadCost_succ (depth : Nat) {f : String} {v : Size}
    (h : document.spreadCost schema defaultComplexity supplied depth f = some v) :
    document.spreadCost schema defaultComplexity supplied (depth + 1) f = some v := by
  cases hf : document.fragment? f with
  | none => rwa [spreadCost_of_undefined _ hf, ← spreadCost_of_undefined depth hf]
  | some fragment =>
    induction depth generalizing f fragment v with
    | zero => simp [spreadCost, hf] at h
    | succ depth ih =>
      rw [spreadCost_eq hf] at h ⊢
      refine (costRelation_imp defaultComplexity).selections _ _ (fun g _ w hw => ?_) v h
      cases hg : document.fragment? g with
      | none => rwa [spreadCost_of_undefined _ hg, ← spreadCost_of_undefined depth hg]
      | some body => exact ih hw body hg

/-- Where a spread has a cost its body has it, at the same depth. -/
theorem costAll_of_spreadCost {depth : Nat} {f : String} {fragment : Fragment} {v : Size}
    (hf : document.fragment? f = some fragment)
    (h : document.spreadCost schema defaultComplexity supplied depth f = some v) :
    Selection.costAll schema defaultComplexity (coercedValues document.fragmentScopeDefinitions supplied)
      (document.spreadCost schema defaultComplexity supplied depth) (schema.type? fragment.condition)
      fragment.selections = some v := by
  rw [← spreadCost_eq hf]
  exact spreadCost_succ depth h

/-! ## Replacing spreads -/

section

variable (h : document.Alike (Selection.Inlined document) document')
include h

/-- What a spread costs it costs in the other document, at the same depth. -/
theorem inlined_spreadCost (depth : Nat) {f : String} {v : Size}
    (hv : document.spreadCost schema defaultComplexity supplied depth f = some v) :
    document'.spreadCost schema defaultComplexity supplied depth f = some v := by
  have hP := costRelation_imp defaultComplexity
  induction depth generalizing f v with
  | zero => exact spreadCost_related_zero hP nofun h f v hv
  | succ depth ih =>
    refine spreadCost_related_succ hP h (fun fragment selections hinlined => ?_) f v hv
    refine hinlined.cost_related hP (fun g w hw => ih hw) (fun g body hg w hw => ?_) _
    exact hP.selections _ _ (fun k _ u hu => ih hu) w (costAll_of_spreadCost hg hw)

/-- What a spread costs in the other document it costs, at twice the depth. -/
theorem spreadCost_inlined (depth : Nat) {f : String} {v : Size}
    (hv : document'.spreadCost schema defaultComplexity supplied depth f = some v) :
    document.spreadCost schema defaultComplexity supplied (2 * depth) f = some v := by
  have hP := (costRelation_imp defaultComplexity).flip
  induction depth generalizing f v with
  | zero => exact spreadCost_related_zero hP nofun h f v hv
  | succ depth ih =>
    have hdouble : 2 * (depth + 1) = 2 * depth + 1 + 1 := by omega
    rw [hdouble]
    refine spreadCost_related_succ hP h (fun fragment selections hinlined => ?_) f v hv
    refine hinlined.cost_related hP (fun g w hw => spreadCost_succ _ (ih hw)) (fun g body hg w hw => ?_) _
    rw [spreadCost_eq hg]
    exact hP.selections _ _ (fun k _ u hu => ih hu) w hw

/-- Where every operation has the values of the fragments, the documents have the same costs. -/
theorem cost_inlined_iff
    (hvalues : ∀ op ∈ document.operations.values,
      coercedValues op.variableDefinitions supplied = coercedValues document.fragmentScopeDefinitions supplied)
    {total : Size} :
    (∃ depth, document.cost schema defaultComplexity supplied depth = some total) ↔
      ∃ depth, document'.cost schema defaultComplexity supplied depth = some total := by
  have hP := costRelation_imp defaultComplexity
  constructor
  · rintro ⟨depth, hcost⟩
    refine ⟨depth, cost_related hP h (fun op hop selections hinlined => ?_) total hcost⟩
    rw [hvalues op hop]
    refine hinlined.cost_related hP (fun g w hw => inlined_spreadCost h depth hw) (fun g body hg w hw => ?_) _
    exact hP.selections _ _ (fun k _ u hu => inlined_spreadCost h depth hu) w (costAll_of_spreadCost hg hw)
  · rintro ⟨depth, hcost⟩
    refine ⟨2 * depth + 1, cost_related hP.flip h (fun op hop selections hinlined => ?_) total hcost⟩
    rw [hvalues op hop]
    refine hinlined.cost_related hP.flip (fun g w hw => spreadCost_succ _ (spreadCost_inlined h depth hw))
      (fun g body hg w hw => ?_) _
    rw [spreadCost_eq hg]
    exact hP.flip.selections _ _ (fun k _ u hu => spreadCost_inlined h depth hu) w hw

end

/-! ## One operation -/

theorem foldl_addDefinition {definitions acc : List VariableDefinition}
    (h : ((acc ++ definitions).map (·.name)).Nodup) : definitions.foldl addDefinition acc = acc ++ definitions := by
  induction definitions generalizing acc with
  | nil => simp
  | cons d rest ih =>
    have hnew : acc.all (·.name ≠ d.name) = true := by
      rw [List.map_append, List.nodup_append] at h
      rw [List.all_eq_true]
      intro x hx
      simpa using h.2.2 _ (List.mem_map_of_mem hx) _ (List.mem_map_of_mem (List.mem_cons_self ..))
    rw [List.foldl_cons, addDefinition, if_pos hnew, ih (by simpa using h), List.append_assoc]
    rfl

/-- The fragments of a document of one operation have its variables. -/
theorem fragmentScopeDefinitions_of_single {op : Operation} (hsingle : document.operations.values = [op])
    (hnames : (op.variableDefinitions.map (·.name)).Nodup) :
    document.fragmentScopeDefinitions = op.variableDefinitions := by
  obtain ⟨⟨name, op'⟩, hentries, hop⟩ := List.map_eq_singleton_iff.mp hsingle
  cases hop
  have hinorder : document.operationsInOrder = [(name, op')] := by
    rw [operationsInOrder, hentries]
    rfl
  rw [fragmentScopeDefinitions, hinorder, List.flatMap_singleton]
  exact foldl_addDefinition hnames

end Document

/-- Replacing spreads of fragments there are by inline fragments with the same type and body,
    one or many and wherever they stand, changes nothing about what a document of one operation
    publishes: the same complexity, or nothing because of a cycle. -/
theorem inlining_published (schema : Schema) {document document' : Document} {op : Operation}
    (hsingle : document.operations.values = [op]) (hnames : (op.variableDefinitions.map (·.name)).Nodup)
    (h : document.Alike (Selection.Inlined document) document') (e : Execution) :
    (validate schema document e).execution.complexity = (validate schema document' e).execution.complexity ∧
      ∀ a, schema.analyzer = some a →
        (∃ c, (validate schema document e).execution.complexity = some c ∧
          (validate schema document' e).execution.complexity = some c) ∨
        ((validate schema document e).execution.complexity = none ∧
          (validate schema document' e).execution.complexity = none ∧
          (∃ err, (validate schema document e).execution.errors.getLast? = some err ∧ err.cause.isCycle = true) ∧
          ∃ err, (validate schema document' e).execution.errors.getLast? = some err ∧ err.cause.isCycle = true) := by
  have hscopes : document.ScopesAgree := by
    intro op₁ hop₁ op₂ hop₂ _
    rw [hsingle, List.mem_singleton] at hop₁ hop₂
    rw [hop₁, hop₂]
  have hsame : (validate schema document e).execution.complexity = (validate schema document' e).execution.complexity := by
    refine complexity_congr hscopes (h.scopesAgree hscopes) fun d total => Document.cost_inlined_iff h fun op' hop' => ?_
    rw [hsingle, List.mem_singleton] at hop'
    rw [hop', Document.fragmentScopeDefinitions_of_single hsingle hnames]
  refine ⟨hsame, fun a ha => ?_⟩
  cases hc : (validate schema document e).execution.complexity with
  | some c => exact .inl ⟨c, rfl, hsame ▸ hc⟩
  | none =>
    have hc' : (validate schema document' e).execution.complexity = none := hsame ▸ hc
    have hcycle := ((validate_ended ha document e).none_iff (Pass.isVariable_of_built a schema document e.supplied)).mp hc
    have hcycle' :=
      ((validate_ended ha document' e).none_iff (Pass.isVariable_of_built a schema document' e.supplied)).mp hc'
    exact .inr ⟨rfl, hc', hcycle, hcycle'⟩

/-- Two pages of items, as many on each as the variable says. -/
def pages : Document where
  operations := .ofPairs [(none, ⟨⟨1, 1⟩, .query, [⟨⟨1, 7⟩, "n", .named "Int" true, none, []⟩], [],
    [.spread "Page" [], .spread "Page" []]⟩)]
  fragments := .ofPairs [
    ("Page", ⟨⟨2, 1⟩, "Query", [], [.field ⟨none, "items", [("first", .var "n")], []⟩ [.spread "Entry" []]]⟩),
    ("Entry", ⟨⟨3, 1⟩, "Item", [], [.field ⟨none, "name", [], []⟩ []]⟩)]

/-- The same, with the second page written out. -/
def pagesInlined : Document where
  operations := .ofPairs [(none, ⟨⟨1, 1⟩, .query, [⟨⟨1, 7⟩, "n", .named "Int" true, none, []⟩], [],
    [.spread "Page" [], .inline (some "Query") []
      [.field ⟨none, "items", [("first", .var "n")], []⟩ [.spread "Entry" []]]]⟩)]
  fragments := pages.fragments

theorem inlining_published_pages :
    pages.Alike (Selection.Inlined pages) pagesInlined ∧
      (validate shop pages three).execution.complexity = some ⟨18, 10⟩ ∧
      (validate shop pagesInlined three).execution.complexity = some ⟨18, 10⟩ := by
  have hpage : pages.fragment? "Page" = some ⟨⟨2, 1⟩, "Query", [],
      [.field ⟨none, "items", [("first", .var "n")], []⟩ [.spread "Entry" []]]⟩ := by rfl
  have halike : pages.Alike (Selection.Inlined pages) pagesInlined := by
    refine ⟨.cons ⟨rfl, rfl, rfl, rfl, .spread _ _ (.replaced _ _ hpage .nil)⟩ .nil, ?_⟩
    exact List.forall₂_same.mpr fun entry _ => ⟨rfl, rfl, rfl, .refl pages _⟩
  have hpublished : (validate shop pages three).execution.complexity = some ⟨18, 10⟩ := by decide +kernel
  have hsingle : pages.operations.values = [_] := rfl
  obtain ⟨hsame, -⟩ := inlining_published shop hsingle (by decide) halike three
  exact ⟨halike, hpublished, hsame ▸ hpublished⟩

end QueryCost
