/-
  QueryCost.Proofs.Cost.Interfaces — what a field costs when it is selected on an interface.

  Of the costs the field has on the objects that implement the interface the one of the
  highest rank is charged. Ranks are taken of what is declared: a complexity that is left
  open ranks as zero, and no cost at all below that. Charged for either is the default, which
  no rank knows of.

  - `interface_charge`: an object that declares the complexity of the field never costs more
    than the interface. One that leaves it open does exactly when the interface is charged
    for a complexity that is declared and below the default.
  - `interface_below_object`: so it can be cheaper to select on the interface than on an
    object that implements it.
-/

import QueryCost.Cost.Tree
import QueryCost.Proofs.Cost.Ranking

namespace QueryCost

namespace DeclaredCost

variable {cost best : Option DeclaredCost} {c : Size}

/-- No candidate ranks above the one that is chosen. -/
theorem rank_le_mostExpensive {candidates : List (Option DeclaredCost)} {candidate : Option DeclaredCost}
    (h : candidate ∈ candidates) : rank candidate ≤ rank (mostExpensive candidates) := by
  rcases foldl_better_first none candidates with ⟨hnone, hle⟩ | ⟨-, hfirst⟩
  · unfold mostExpensive
    rw [hnone]
    exact hle candidate h
  · exact hfirst.le h

/-! ## Flat costs -/

/-- A flat cost, or none. -/
def IsFlat (cost : Option DeclaredCost) : Prop := ∀ declared ∈ cost, declared.isList = false

instance (cost : Option DeclaredCost) : Decidable (IsFlat cost) :=
  inferInstanceAs (Decidable (∀ declared ∈ cost, declared.isList = false))

/-- A choice among flat costs is one. -/
theorem isFlat_mostExpensive {candidates : List (Option DeclaredCost)} (h : ∀ candidate ∈ candidates, IsFlat candidate) :
    IsFlat (mostExpensive candidates) := by
  rcases foldl_better_first none candidates with ⟨hnone, -⟩ | ⟨-, hfirst⟩
  · unfold mostExpensive
    rw [hnone]
    exact nofun
  · exact h _ hfirst.mem

/-- The complexity that is declared; none where it is left open. -/
def declared? (cost : Option DeclaredCost) : Option Size := cost.bind (·.complexity?)

theorem complexity_of_isFlat (h : IsFlat cost) (n : CostNode) (defaultComplexity children : Size) :
    ({ n with kind := .field cost } : CostNode).complexity defaultComplexity children =
      (declared? cost).getD defaultComplexity + children := by
  cases cost with
  | none => rfl
  | some declared =>
    cases declared with
    | flat complexity => rfl
    | list complexity assumed names => cases h _ rfl

theorem rank_of_declared (h : IsFlat cost) (hc : declared? cost = some c) :
    rank cost = (min c.toNat rankLimit : Nat) := by
  cases cost with
  | none => cases hc
  | some declared =>
    cases declared with
    | flat complexity =>
      have hcomplexity : complexity = some c := hc
      rw [hcomplexity]
      rfl
    | list complexity assumed names => cases h _ rfl

theorem rank_of_open (h : IsFlat cost) (hopen : declared? cost = none) : rank cost ≤ 0 := by
  cases cost with
  | none => decide
  | some declared =>
    cases declared with
    | flat complexity =>
      have hcomplexity : complexity = none := hopen
      rw [hcomplexity]
      decide
    | list complexity assumed names => cases h _ rfl

/-- A complexity that is declared, and is no larger than ranks are, is charged at most as much
    as a flat cost that ranks at least as high. -/
theorem declared_le (hcost : IsFlat cost) (hbest : IsFlat best) (hrank : rank cost ≤ rank best)
    (hc : declared? cost = some c) (hle : c.toNat ≤ rankLimit) (defaultComplexity : Size) :
    c ≤ (declared? best).getD defaultComplexity := by
  rw [rank_of_declared hcost hc] at hrank
  cases hb : declared? best with
  | none =>
    -- what is left open ranks no higher than zero
    have hopen := rank_of_open hbest hb
    have hzero : c.toNat = 0 := by omega
    show c.toNat ≤ defaultComplexity.toNat
    omega
  | some c' =>
    rw [rank_of_declared hbest hb] at hrank
    show c.toNat ≤ c'.toNat
    omega

end DeclaredCost

open DeclaredCost

/-! ## Interfaces -/

namespace Schema

variable {s : Schema} {i o : TypeEntry} {field : String}

/-- Whatever is selected below it, the field costs at least as much on the first type as on
    the second. -/
def ChargesAtLeast (s : Schema) (defaultComplexity : Size) (field : String) (t t' : TypeEntry) : Prop :=
  ∀ (n : CostNode) (children : Size),
    ({ n with kind := .field (s.fieldCost t' field) } : CostNode).complexity defaultComplexity children ≤
      ({ n with kind := .field (s.fieldCost t field) } : CostNode).complexity defaultComplexity children

theorem chargesAtLeast_iff {t t' : TypeEntry} (h : IsFlat (s.fieldCost t field)) (h' : IsFlat (s.fieldCost t' field))
    (defaultComplexity : Size) :
    s.ChargesAtLeast defaultComplexity field t t' ↔
      (declared? (s.fieldCost t' field)).getD defaultComplexity ≤
        (declared? (s.fieldCost t field)).getD defaultComplexity := by
  constructor
  · intro hcharges
    have hleaf := hcharges .container 0
    rwa [complexity_of_isFlat h, complexity_of_isFlat h', add_zero, add_zero] at hleaf
  · intro hle n children
    rw [complexity_of_isFlat h, complexity_of_isFlat h']
    exact add_le_add_left hle children

/-- Every object that implements the interface and declares the field has a flat cost on it,
    or none. -/
def FlatOnObjects (s : Schema) (i : TypeEntry) (field : String) : Prop :=
  ∀ o ∈ s.implementations i, ∀ entry ∈ o.field? field, IsFlat entry.cost

instance (s : Schema) (i : TypeEntry) (field : String) : Decidable (s.FlatOnObjects i field) :=
  inferInstanceAs (Decidable (∀ o ∈ s.implementations i, ∀ entry ∈ o.field? field, IsFlat entry.cost))

theorem fieldCost_of_object (ho : o.kind = .object) {entry : FieldEntry} (hentry : o.field? field = some entry) :
    s.fieldCost o field = entry.cost := by
  simp [fieldCost, TypeEntry.isInterface, ho, hentry]

/-- The field has a flat cost on the interface, and one that ranks as high as any. -/
theorem fieldCost_ranks (hi : i.isInterface = true) (hflat : s.FlatOnObjects i field) :
    IsFlat (s.fieldCost i field) ∧
      ∀ o ∈ s.implementations i, ∀ entry ∈ o.field? field,
        rank entry.cost ≤ rank (s.fieldCost i field) := by
  rw [fieldCost_of_interface hi]
  constructor
  · refine isFlat_mostExpensive fun candidate hcandidate => ?_
    obtain ⟨entry, hentry, rfl⟩ := List.mem_map.mp hcandidate
    obtain ⟨o, ho, hfield⟩ := List.mem_filterMap.mp hentry
    exact hflat o ho entry hfield
  · intro o ho entry hfield
    exact rank_le_mostExpensive (List.mem_map_of_mem (List.mem_filterMap.mpr ⟨o, ho, hfield⟩))

end Schema

/-- Selected on an interface, a field costs at least as much as on any object that implements
    it and declares the field's complexity. On an object that leaves the complexity open it
    costs no more than on the interface exactly when the interface is not charged for a
    complexity declared below the default. -/
theorem interface_charge {s : Schema} {i : TypeEntry} (hi : i.isInterface = true) {field : String}
    (hflat : s.FlatOnObjects i field) {o : TypeEntry} (ho : o ∈ s.implementations i) (hobject : o.kind = .object)
    {entry : FieldEntry} (hentry : o.field? field = some entry) (defaultComplexity : Size) :
    (∀ c, entry.cost = some (.flat (some c)) → c.toNat ≤ rankLimit →
        s.ChargesAtLeast defaultComplexity field i o) ∧
      (entry.cost = none ∨ entry.cost = some (.flat none) →
        (s.ChargesAtLeast defaultComplexity field i o ↔
          ∀ c, s.fieldCost i field = some (.flat (some c)) → defaultComplexity ≤ c)) := by
  obtain ⟨hchosen, hranks⟩ := Schema.fieldCost_ranks hi hflat
  have hcost := hflat o ho entry hentry
  have hrank := hranks o ho entry hentry
  have hobjectCost : s.fieldCost o field = entry.cost := Schema.fieldCost_of_object hobject hentry
  have hiff : s.ChargesAtLeast defaultComplexity field i o ↔
      (declared? entry.cost).getD defaultComplexity ≤ (declared? (s.fieldCost i field)).getD defaultComplexity := by
    rw [← hobjectCost]
    exact Schema.chargesAtLeast_iff hchosen (hobjectCost ▸ hcost) defaultComplexity
  refine ⟨fun c hc hle => ?_, fun hopen => ?_⟩
  · have hdeclared : declared? entry.cost = some c := by rw [hc]; rfl
    rw [hiff, hdeclared]
    exact declared_le hcost hchosen hrank hdeclared hle defaultComplexity
  · have hdeclared : declared? entry.cost = none := by
      rcases hopen with h | h <;> rw [h] <;> rfl
    rw [hiff, hdeclared, Option.getD_none]
    generalize s.fieldCost i field = chosen at hchosen
    cases chosen with
    | none => simp [declared?]
    | some declared =>
      cases declared with
      | flat complexity => cases complexity <;> simp [declared?, complexity?]
      | list complexity assumed names => cases hchosen _ rfl

/-- A type with an area, and the interfaces it names. -/
def withArea (name : String) (kind : TypeKind) (interfaces : List String) (cost : Option DeclaredCost) : TypeEntry :=
  { TypeEntry.bare name kind with
    interfaces, fields := .ofPairs [("area", ⟨"area", .named "Int" true, ∅, cost⟩)] }

def figure : TypeEntry := withArea "Figure" .interface [] none

/-- The area of a circle is declared to cost 3. -/
def circle : TypeEntry := withArea "Circle" .object ["Figure"] (some (.flat (some 3)))

/-- Nothing is declared for the area of a square. -/
def square : TypeEntry := withArea "Square" .object ["Figure"] none

/-- Circles and squares are figures. -/
def plainFigures : String :=
  "type Query{area:Int}interface Figure{area:Int}type Circle implements Figure{area:Int@cost(complexity:3)}" ++
    "type Square implements Figure{area:Int}"

def figures : Schema where
  queryType := "Query"
  mutationType := none
  subscriptionType := none
  types := withBuiltins (.ofPairs [("Query", withArea "Query" .object [] none), ("Figure", figure), ("Circle", circle),
    ("Square", square)])
  implementors := .ofPairs [("Figure", ["Circle", "Square"])]
  analyzer := none

theorem figures_of_parse : Schema.parse plainFigures = .ok figures := by decide +kernel

/-- The area of a figure costs as much as that of a circle, and as much as that of a square
    while the default is at most 3. -/
theorem interface_charge_figures :
    Schema.parse plainFigures = .ok figures ∧ figures.type? "Figure" = some figure ∧
      figures.FlatOnObjects figure "area" ∧ circle ∈ figures.implementations figure ∧
      square ∈ figures.implementations figure ∧ figures.ChargesAtLeast 2 "area" figure circle ∧
      figures.ChargesAtLeast 2 "area" figure square ∧ ¬ figures.ChargesAtLeast 4 "area" figure square := by
  have hfigure : figures.type? "Figure" = some figure := by decide +kernel
  have hi : figure.isInterface = true := by decide
  have hflat : figures.FlatOnObjects figure "area" := by decide +kernel
  have hcircle : circle ∈ figures.implementations figure := by decide +kernel
  have hsquare : square ∈ figures.implementations figure := by decide +kernel
  have hcost : figures.fieldCost figure "area" = some (.flat (some 3)) := by decide +kernel
  obtain ⟨hdeclared, -⟩ := interface_charge hi hflat hcircle rfl rfl 2
  obtain ⟨-, htwo⟩ := interface_charge hi hflat hsquare rfl rfl 2
  obtain ⟨-, hfour⟩ := interface_charge hi hflat hsquare rfl rfl 4
  refine ⟨figures_of_parse, hfigure, hflat, hcircle, hsquare, hdeclared 3 rfl (by decide), ?_, ?_⟩
  · rw [htwo (.inl rfl), hcost]
    rintro c hc
    cases hc
    decide
  · rw [hfour (.inl rfl), hcost]
    intro hle
    exact absurd (hle 3 rfl) (by decide)

/-- An interface need not cost as much as an object that implements it, in schemas that are
    read. With a default of 4 the area of a figure costs the 3 declared for circles, that of a
    square 4. -/
theorem interface_below_object :
    ¬ ∀ {text : String} {s : Schema}, Schema.parse text = .ok s →
      ∀ {name : String} {i : TypeEntry}, s.type? name = some i → i.isInterface = true →
        ∀ field, (i.field? field).isSome → s.FlatOnObjects i field →
          ∀ (defaultComplexity : Size), ∀ o ∈ s.implementations i, o.kind = .object →
            (o.field? field).isSome → s.ChargesAtLeast defaultComplexity field i o := by
  intro h
  have hfigure : figures.type? "Figure" = some figure := by decide +kernel
  have hcharges := h figures_of_parse hfigure (by decide) "area" (by decide +kernel) (by decide +kernel) 4 square
    (by decide +kernel) (by decide) (by decide +kernel) .container 0
  exact absurd hcharges (by decide +kernel)

end QueryCost
