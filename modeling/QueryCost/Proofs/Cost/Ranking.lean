/-
  QueryCost.Proofs.Cost.Ranking — which of several declared costs is chosen.

  What is declared goes by its weight, the assumed size of a list and the complexity of a flat
  cost, zero where that is left open; nothing declared comes before anything. The first candidate
  nothing goes above is chosen (`DeclaredCost.FirstHighest`). Weights are compared only up to
  2^63 - 1, which is as far as ranks go (`DeclaredCost.cappedKey`).

  - `foldl_better_first`: the best so far is kept until something ranks above it, and then the
    first that ranks highest takes its place.
  - `most_expensive_first`: so it is for every list of candidates, and for a field or a type that
    is looked up through an interface.
  - `lighter_of_heavy_chosen`: of two weights that ranks do not tell apart the first is chosen,
    even where the second is larger.
-/

import Mathlib.Order.WithBot
import QueryCost.Cost.Resolve
import QueryCost.Proofs.Saturation
import QueryCost.Proofs.Schema.Implementors

namespace QueryCost

namespace DeclaredCost

/-- The number a declared cost is compared by. -/
def weight : DeclaredCost → Size
  | .flat complexity => complexity.getD 0
  | .list _ assumedSize _ => assumedSize.getD 0

/-- A cost by its weight; none comes before every one. -/
def exactKey : Option DeclaredCost → WithBot ℕ
  | none => ⊥
  | some cost => WithBot.some cost.weight.toNat

/-- A cost by its weight, the weights from 2^63 - 1 on all alike. -/
def cappedKey : Option DeclaredCost → WithBot ℕ
  | none => ⊥
  | some cost => WithBot.some (min cost.weight.toNat rankLimit)

/-! ## The first of the highest -/

section

variable {α κ : Type} {l : List α} {x y : α}

/-- Nothing in the list has a higher key, and nothing before it one as high. -/
def FirstHighest [LE κ] [LT κ] (key : α → κ) (l : List α) (x : α) : Prop :=
  ∃ before after, l = before ++ x :: after ∧ (∀ y ∈ before, key y < key x) ∧ ∀ y ∈ after, key y ≤ key x

theorem FirstHighest.cons [LE κ] [LT κ] {key : α → κ} (h : FirstHighest key l x) (hy : key y < key x) :
    FirstHighest key (y :: l) x := by
  obtain ⟨before, after, rfl, hbefore, hafter⟩ := h
  exact ⟨y :: before, after, rfl, List.forall_mem_cons.mpr ⟨hy, hbefore⟩, hafter⟩

theorem FirstHighest.mem [LE κ] [LT κ] {key : α → κ} (h : FirstHighest key l x) : x ∈ l := by
  obtain ⟨before, after, rfl, -, -⟩ := h
  exact List.mem_append_right _ (List.mem_cons_self ..)

theorem FirstHighest.le [Preorder κ] {key : α → κ} (h : FirstHighest key l x) (hy : y ∈ l) : key y ≤ key x := by
  obtain ⟨before, after, rfl, hbefore, hafter⟩ := h
  rcases List.mem_append.mp hy with hy | hy
  · exact le_of_lt (hbefore y hy)
  · rcases List.mem_cons.mp hy with rfl | hy
    · exact le_refl _
    · exact hafter y hy

end

/-! ## Ranks -/

theorem rank_some (cost : DeclaredCost) : rank (some cost) = (min cost.weight.toNat rankLimit : ℕ) := by
  cases cost <;> rfl

theorem rank_lt_iff (a b : Option DeclaredCost) : rank a < rank b ↔ cappedKey a < cappedKey b := by
  cases a with
  | none =>
    cases b with
    | none => simp
    | some b =>
      have hneg : rank none < rank (some b) := by
        rw [rank_some]
        exact Int.lt_of_lt_of_le (by decide) (Int.natCast_nonneg _)
      exact iff_of_true hneg (WithBot.bot_lt_coe _)
  | some a =>
    cases b with
    | none =>
      have hpos : ¬ rank (some a) < rank none := by
        rw [rank_some]
        exact Int.not_lt.mpr (Int.le_trans (by decide) (Int.natCast_nonneg _))
      exact iff_of_false hpos (WithBot.not_lt_bot _)
    | some b => rw [rank_some, rank_some, Int.ofNat_lt, cappedKey, cappedKey, WithBot.coe_lt_coe]

theorem rank_le_iff (a b : Option DeclaredCost) : rank a ≤ rank b ↔ cappedKey a ≤ cappedKey b := by
  rw [← Int.not_lt, ← not_lt, rank_lt_iff]

theorem rank_none_lt {cost : Option DeclaredCost} : rank none < rank cost ↔ cost ≠ none := by
  rw [rank_lt_iff]
  cases cost with
  | none => simp
  | some cost => simp [cappedKey]

/-! ## The choice -/

/-- Either nothing ranks above the best so far, which stays, or what comes out is the first of
    the highest rank. -/
theorem foldl_better_first (best : Option DeclaredCost) (candidates : List (Option DeclaredCost)) :
    (candidates.foldl better best = best ∧ ∀ c ∈ candidates, rank c ≤ rank best) ∨
      (rank best < rank (candidates.foldl better best) ∧
        FirstHighest rank candidates (candidates.foldl better best)) := by
  induction candidates generalizing best with
  | nil => exact .inl ⟨rfl, nofun⟩
  | cons c rest ih =>
    rw [List.foldl_cons]
    by_cases hc : rank best < rank c
    · have hnext : better best c = c := if_pos hc
      rw [hnext]
      rcases ih c with ⟨hstays, hle⟩ | ⟨hlt, hfirst⟩
      · rw [hstays]
        exact .inr ⟨hc, [], rest, rfl, nofun, hle⟩
      · exact .inr ⟨Int.lt_trans hc hlt, hfirst.cons hlt⟩
    · have hnext : better best c = best := if_neg hc
      have hle : rank c ≤ rank best := Int.not_lt.mp hc
      rw [hnext]
      rcases ih best with ⟨hstays, hrest⟩ | ⟨hlt, hfirst⟩
      · exact .inl ⟨hstays, List.forall_mem_cons.mpr ⟨hle, hrest⟩⟩
      · exact .inr ⟨hlt, hfirst.cons (Int.lt_of_le_of_lt hle hlt)⟩

/-- None is chosen only where nothing is declared, and otherwise the first candidate of the
    highest key. -/
structure IsChoice (key : Option DeclaredCost → WithBot ℕ) (candidates : List (Option DeclaredCost))
    (chosen : Option DeclaredCost) : Prop where
  none_iff : chosen = none ↔ ∀ c ∈ candidates, c = none
  first : chosen ≠ none → FirstHighest key candidates chosen

theorem isChoice_mostExpensive (candidates : List (Option DeclaredCost)) :
    IsChoice cappedKey candidates (mostExpensive candidates) := by
  rcases foldl_better_first none candidates with ⟨hnone, hle⟩ | ⟨hlt, hfirst⟩
  · have hall : ∀ c ∈ candidates, c = none := by
      intro c hc
      by_contra hsome
      exact Int.not_lt.mpr (hle c hc) (rank_none_lt.mpr hsome)
    exact ⟨iff_of_true hnone hall, fun h => absurd hnone h⟩
  · have hsome : mostExpensive candidates ≠ none := rank_none_lt.mp hlt
    refine ⟨iff_of_false hsome fun hall => hsome (hall _ hfirst.mem), fun _ => ?_⟩
    obtain ⟨before, after, hsplit, hbefore, hafter⟩ := hfirst
    refine ⟨before, after, hsplit, fun c hc => ?_, fun c hc => ?_⟩
    · exact (rank_lt_iff c _).mp (hbefore c hc)
    · exact (rank_le_iff c _).mp (hafter c hc)

end DeclaredCost

open DeclaredCost

namespace Schema

/-- What the objects that name an interface declare for a field, where they have it. -/
def fieldCandidates (s : Schema) (i : TypeEntry) (field : String) : List (Option DeclaredCost) :=
  ((s.objectsNaming i.name).filterMap (·.field? field)).map (·.cost)

/-- What the objects that name an interface are declared to cost themselves. -/
def typeCandidates (s : Schema) (i : TypeEntry) : List (Option DeclaredCost) := (s.objectsNaming i.name).map (·.cost)

variable {parse : Sdl.Parser} {text : String} {s : Schema} {i : TypeEntry}

theorem fieldCost_of_interface (hi : i.isInterface = true) (field : String) :
    s.fieldCost i field = mostExpensive (((s.implementations i).filterMap (·.field? field)).map (·.cost)) := if_pos hi

theorem typeCost_of_interface (hi : i.isInterface = true) :
    s.typeCost i = mostExpensive ((s.implementations i).map (·.cost)) := if_pos hi

/-- Attaching an analyzer leaves the objects of an interface as they are. -/
theorem implementations_withAnalyzer (h : Schema.parseWith parse text = .ok s) (analyzer : Option Analyzer)
    (hi : i.isInterface = true) : implementations { s with analyzer } i = s.objectsNaming i.name :=
  implementations_of_parse h hi

end Schema

/-- Of any candidates none is chosen exactly where nothing is declared, and otherwise the first
    of the highest weight, weights from 2^63 - 1 on taken as equal. With every schema that is
    read, whatever analyzer is attached to it, so are chosen the cost of a field on an interface,
    among those of the objects that implement it and have the field, and the cost of an
    interface, among those of all objects that implement it. -/
theorem most_expensive_first :
    (∀ candidates, IsChoice cappedKey candidates (mostExpensive candidates)) ∧
      ∀ {parse : Sdl.Parser} {text : String} {s : Schema} (analyzer : Option Analyzer),
        Schema.parseWith parse text = .ok s → ∀ {i : TypeEntry}, i.isInterface = true →
          (∀ field, IsChoice cappedKey (s.fieldCandidates i field) (Schema.fieldCost { s with analyzer } i field)) ∧
            IsChoice cappedKey (s.typeCandidates i) (Schema.typeCost { s with analyzer } i) := by
  refine ⟨isChoice_mostExpensive, fun {_ _ s} analyzer h i hi => ⟨fun field => ?_, ?_⟩⟩
  · rw [Schema.fieldCost_of_interface hi, Schema.implementations_withAnalyzer h analyzer hi]
    exact isChoice_mostExpensive (s.fieldCandidates i field)
  · rw [Schema.typeCost_of_interface hi, Schema.implementations_withAnalyzer h analyzer hi]
    exact isChoice_mostExpensive (s.typeCandidates i)

/-- Three figures, one of them the query type. The second and the third weigh the same. -/
def rankedFigures : String :=
  "type Query implements F{a:Int}interface F{a:Int}type Ring implements F{a:Int@cost(complexity:5)}" ++
    "type Grid implements F{a:Int@listCost(assumedSize:5)}"

theorem most_expensive_first_figures :
    ∃ s i, Schema.parse rankedFigures = .ok s ∧ s.type? "F" = some i ∧ i.isInterface = true ∧
      s.fieldCandidates i "a" = [none, some (.flat (some 5)), some (.list none (some 5) ∅)] ∧
      s.fieldCost i "a" = some (.flat (some 5)) ∧
      IsChoice cappedKey (s.fieldCandidates i "a") (s.fieldCost i "a") ∧
      IsChoice cappedKey (s.typeCandidates i) (s.typeCost i) := by
  obtain ⟨s, i, h, hi, hheld⟩ :=
    exists_type_of_parse rankedFigures "F" (fun s i => (i.isInterface, s.fieldCandidates i "a", s.fieldCost i "a"))
      (true, [none, some (.flat (some 5)), some (.list none (some 5) ∅)], some (.flat (some 5))) (by decide +kernel)
  simp only [Prod.mk.injEq] at hheld
  obtain ⟨hinterface, hcandidates, hcost⟩ := hheld
  obtain ⟨hfield, htype⟩ := most_expensive_first.2 s.analyzer h hinterface
  exact ⟨s, i, h, hi, hinterface, hcandidates, hcost, hfield "a", htype⟩

/-- Two figures heavier than ranks go. The lighter one comes first. -/
def heavyFigures : String :=
  "type Query implements F{a:Int@cost(complexity:9223372036854775807)}interface F{a:Int}" ++
    "type Disk implements F{a:Int@cost(complexity:9223372036854775808)}"

/-- Of two costs that both weigh 2^63 - 1 or more the first is chosen, here the lighter one. -/
theorem lighter_of_heavy_chosen :
    ¬ ∀ {text : String} {s : Schema}, Schema.parse text = .ok s → ∀ {i : TypeEntry}, i.isInterface = true →
        ∀ field, IsChoice exactKey (s.fieldCandidates i field) (s.fieldCost i field) := by
  intro hexact
  obtain ⟨s, i, h, -, hheld⟩ :=
    exists_type_of_parse heavyFigures "F" (fun s i => (i.isInterface, s.fieldCandidates i "a", s.fieldCost i "a"))
      (true, [some (.flat (some 9223372036854775807)), some (.flat (some 9223372036854775808))],
        some (.flat (some 9223372036854775807))) (by decide +kernel)
  simp only [Prod.mk.injEq] at hheld
  obtain ⟨hinterface, hcandidates, hcost⟩ := hheld
  have hfirst := hexact h hinterface "a"
  rw [hcandidates, hcost] at hfirst
  have hle := (hfirst.first (Option.some_ne_none _)).le (List.mem_cons_of_mem _ (List.mem_singleton_self _))
  exact absurd (WithBot.coe_le_coe.mp hle) (by decide +kernel)

end QueryCost
