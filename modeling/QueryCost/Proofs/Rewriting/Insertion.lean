/-
  QueryCost.Proofs.Rewriting.Insertion — more selections never cost less.

  A document is extended when selections are inserted anywhere, in operations and in
  fragments and at any depth (`Selection.Extended`). What is inserted adds its cost to the
  sum it stands in, and every sum and charge above grows with what is below it. Whether a
  field is pruned is decided by the variables of its scope, which are the same in both
  documents.

  - `extension_published`: where a pass publishes a complexity for the extended document it
    publishes one for the document itself, and that is at most as large.
  - `extension_of_shared_scope_published`: operations at one position share a scope, whose
    variables are those of the operation that needs them first. A selection inserted there
    can bring in variables that fail, and with them the sizes of another operation.
-/

import QueryCost.Proofs.Rewriting.Alike

namespace QueryCost

/-- Selections are inserted, anywhere. -/
inductive Selection.Extended : List Selection → List Selection → Prop
  | nil : Extended [] []
  | inserted (s : Selection) {rest rest' : List Selection} : Extended rest rest' → Extended rest (s :: rest')
  | field (f : Field) {below below' rest rest' : List Selection} : Extended below below' → Extended rest rest' →
      Extended (.field f below :: rest) (.field f below' :: rest')
  | inline (condition : Option String) (directives : List (Directive String))
      {below below' rest rest' : List Selection} : Extended below below' → Extended rest rest' →
      Extended (.inline condition directives below :: rest) (.inline condition directives below' :: rest')
  | spread (f : String) (directives : List (Directive String)) {rest rest' : List Selection} :
      Extended rest rest' → Extended (.spread f directives :: rest) (.spread f directives :: rest')

theorem Selection.Extended.refl : ∀ selections, Extended selections selections
  | [] => .nil
  | .field f below :: rest => .field f (refl below) (refl rest)
  | .inline condition directives below :: rest => .inline condition directives (refl below) (refl rest)
  | .spread f directives :: rest => .spread f directives (refl rest)

/-! ## Smaller costs -/

/-- Where the second cost is known the first is, and it is at most as large. -/
def AtMost (x y : Option Size) : Prop := ∀ w, y = some w → ∃ v, x = some v ∧ v ≤ w

theorem costRelation_atMost (defaultComplexity : Size) : CostRelation defaultComplexity AtMost := by
  refine ⟨?_, ?_, ?_⟩
  · intro w hw
    exact ⟨w, hw, le_refl w⟩
  · intro x y x' y' h h' w hw
    obtain ⟨a, b, ha, hb, rfl⟩ := Option.map₂_eq_some_iff.mp hw
    obtain ⟨v, rfl, hv⟩ := h a ha
    obtain ⟨v', rfl, hv'⟩ := h' b hb
    exact ⟨v + v', rfl, add_le_add hv hv'⟩
  · intro x y cost landing sizes h w hw
    obtain ⟨b, hb, rfl⟩ := Option.map_eq_some_iff.mp hw
    obtain ⟨v, rfl, hv⟩ := h b hb
    have hsizes : List.Forall₂ (· ≤ ·) sizes sizes := List.forall₂_same.mpr fun _ _ => le_refl _
    exact ⟨_, rfl, fieldCharge_mono (le_refl _) cost landing hsizes hv⟩

/-- A cost is at most its sum with another. -/
theorem AtMost.add_left {x y : Option Size} (h : AtMost x y) (z : Option Size) :
    AtMost x (Option.map₂ (· + ·) z y) := by
  intro w hw
  obtain ⟨a, b, _, hb, rfl⟩ := Option.map₂_eq_some_iff.mp hw
  obtain ⟨v, hx, hv⟩ := h b hb
  exact ⟨v, hx, le_add_of_nonneg_of_le (Size.zero_le a) hv⟩

section

variable {schema : Schema} {defaultComplexity : Size} {values : Option Variables} {spread spread' : String → Option Size}

theorem Selection.Extended.costAll_atMost (hspread : ∀ f, AtMost (spread f) (spread' f))
    {selections selections' : List Selection} (h : Extended selections selections') (parent : Option TypeEntry) :
    AtMost (costAll schema defaultComplexity values spread parent selections)
      (costAll schema defaultComplexity values spread' parent selections') := by
  have hP := costRelation_atMost defaultComplexity
  induction h generalizing parent with
  | nil => exact hP.zero
  | inserted s _ ih =>
    rw [costAll_cons parent s]
    exact (ih parent).add_left _
  | field f _ _ ihbelow ihrest => exact hP.cons (hP.field parent f ihbelow) (ihrest parent)
  | inline condition _ _ _ ihbelow ihrest =>
    exact hP.cons (CostRelation.inline parent condition ihbelow) (ihrest parent)
  | spread f _ _ ihrest => exact hP.cons (hspread f) (ihrest parent)

end

namespace Document

variable {document document' : Document} {schema : Schema} {defaultComplexity : Size} {supplied : Variables}

theorem spreadCost_atMost (h : document.Alike Selection.Extended document') (depth : Nat) (f : String) :
    AtMost (document.spreadCost schema defaultComplexity supplied depth f)
      (document'.spreadCost schema defaultComplexity supplied depth f) := by
  have hP := costRelation_atMost defaultComplexity
  induction depth generalizing f with
  | zero => exact spreadCost_related_zero hP nofun h f
  | succ depth ih =>
    refine spreadCost_related_succ hP h (fun fragment selections hextended => ?_) f
    exact hextended.costAll_atMost ih _

theorem cost_atMost (h : document.Alike Selection.Extended document') (depth : Nat) :
    AtMost (document.cost schema defaultComplexity supplied depth)
      (document'.cost schema defaultComplexity supplied depth) := by
  refine cost_related (costRelation_atMost defaultComplexity) h fun op _ selections hextended => ?_
  exact hextended.costAll_atMost (spreadCost_atMost h depth) _

end Document

/-! ## What is published -/

/-- Where operations at one position define the same variables, inserting selections anywhere
    keeps or raises what is published, and makes nothing known that was not. -/
theorem extension_published (schema : Schema) {document document' : Document} (hscopes : document.ScopesAgree)
    (h : document.Alike Selection.Extended document') (e : Execution) {c' : Complexity}
    (hc' : (validate schema document' e).execution.complexity = some c') :
    ∃ c, (validate schema document e).execution.complexity = some c ∧ c.current ≤ c'.current := by
  cases ha : schema.analyzer with
  | none =>
    rw [validate_of_no_analyzer ha] at hc'
    exact ⟨c', by rw [validate_of_no_analyzer ha, hc'], le_refl _⟩
  | some a =>
    obtain ⟨-, depth, hcost'⟩ := (complexity_eq_some_iff ha (h.scopesAgree hscopes)).mp hc'
    obtain ⟨v, hcost, hle⟩ := Document.cost_atMost h depth _ hcost'
    exact ⟨⟨v, a.maxComplexity⟩, (complexity_eq_some_iff ha hscopes).mpr ⟨rfl, depth, hcost⟩, hle⟩

/-- The listing without the rest of an entry. -/
def listingShort : Document where
  operations := listing.operations
  fragments := .ofPairs [
    ("Entry", ⟨⟨2, 1⟩, "Item", [], [.field ⟨none, "name", [], []⟩ []]⟩),
    ("Rest", ⟨⟨3, 1⟩, "Item", [], [.field ⟨none, "name", [], []⟩ []]⟩)]

/-- The spread of the rest, inserted in the body of a fragment, adds 2 to each of 3 items. -/
theorem extension_published_listing :
    listingShort.ScopesAgree ∧ listingShort.Alike Selection.Extended listing ∧
      (validate shop listing three).execution.complexity = some ⟨15, 10⟩ ∧
      ∃ c, (validate shop listingShort three).execution.complexity = some c ∧ c.current ≤ 15 := by
  have hscopes : listingShort.ScopesAgree := Document.scopesAgree_of_nodup (by decide +kernel)
  have halike : listingShort.Alike Selection.Extended listing := by
    refine ⟨List.forall₂_same.mpr fun entry _ => ⟨rfl, rfl, rfl, rfl, .refl _⟩, ?_⟩
    exact .cons ⟨rfl, rfl, rfl, .field _ .nil (.inserted _ .nil)⟩ (.cons ⟨rfl, rfl, rfl, .refl _⟩ .nil)
  have hpublished : (validate shop listing three).execution.complexity = some ⟨15, 10⟩ := by decide +kernel
  exact ⟨hscopes, halike, hpublished, extension_published shop hscopes halike three hpublished⟩

/-- Two operations at one position. The first asks for a variable that is not supplied, and
    for no items. -/
def shared : Document where
  operations := .ofPairs [
    (some "A", ⟨⟨1, 1⟩, .query, [⟨⟨1, 9⟩, "n", .named "Int" false, none, []⟩], [],
      [.field ⟨none, "__typename", [], []⟩ []]⟩),
    (some "B", ⟨⟨1, 1⟩, .query, [], [],
      [.field ⟨none, "items", [("first", .number (.ofSize 3))], []⟩
        [.field ⟨none, "name", [], []⟩ []]]⟩)]
  fragments := ∅

/-- The same, the first asking for one item as well. -/
def sharedExtended : Document where
  operations := .ofPairs [
    (some "A", ⟨⟨1, 1⟩, .query, [⟨⟨1, 9⟩, "n", .named "Int" false, none, []⟩], [],
      [.field ⟨none, "__typename", [], []⟩ [],
        .field ⟨none, "items", [("first", .number (.ofSize 1))], []⟩
          [.field ⟨none, "name", [], []⟩ []]]⟩),
    (some "B", ⟨⟨1, 1⟩, .query, [], [],
      [.field ⟨none, "items", [("first", .number (.ofSize 3))], []⟩
        [.field ⟨none, "name", [], []⟩ []]]⟩)]
  fragments := ∅

/-- The variables fail when the first operation needs them, and the items of the second are
    pruned: it has the scope of the first. -/
theorem extension_of_shared_scope_published :
    shared.Alike Selection.Extended sharedExtended ∧
      (validate shop shared (.ofVariables ∅)).execution.complexity = some ⟨9, 10⟩ ∧
      (validate shop sharedExtended (.ofVariables ∅)).execution.complexity = some ⟨0, 10⟩ := by
  refine ⟨⟨?_, .nil⟩, by decide +kernel, by decide +kernel⟩
  refine .cons ⟨rfl, rfl, rfl, rfl, .field _ .nil (.inserted _ .nil)⟩ (.cons ⟨rfl, rfl, rfl, rfl, .refl _⟩ .nil)

end QueryCost
