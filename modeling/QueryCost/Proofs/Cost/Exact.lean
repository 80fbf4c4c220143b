/-
  QueryCost.Proofs.Cost.Exact — what a cost tree comes to when no number is too large.

  `ExactlyCosts` is the plain recursion over unbounded numbers, in which a list costs its
  base once for every element. Sizes are clamped at every sum and every product on the way,
  and it makes no difference: a cost in sizes is the exact cost clamped once
  (`exists_exactlyCosts`).
-/

import QueryCost.Proofs.Cost.Refold

namespace QueryCost

/-- What a node costs when its children cost `children` together, no number being too large. -/
def CostNode.exactComplexity (n : CostNode) (defaultComplexity children : Nat) : Nat :=
  match n.kind with
  | .container => children
  | .field (some (.list complexity assumedSize _)) =>
    let base := (complexity.getD 0).toNat + n.ownComplexity.toNat + children
    base * if n.multipliers.isEmpty then (assumedSize.getD 0).toNat else (n.multipliers.map (·.toNat)).sum
  | .field (some (.flat complexity)) => (complexity.map (·.toNat)).getD defaultComplexity + children
  | .field none => defaultComplexity + children

/-- A list costs its base once for every element, when sizes stand for the elements. -/
theorem CostNode.complexity_list {n : CostNode} {complexity assumedSize : Option Size} {names : NameSet}
    (h : n.kind = .field (some (.list complexity assumedSize names))) (defaultComplexity children : Size) :
    n.complexity defaultComplexity children =
      (complexity.getD 0 + n.ownComplexity + children) *
        if n.multipliers.isEmpty then assumedSize.getD 0 else n.multipliers.sum := by
  simp only [CostNode.complexity, h]
  split
  · rfl
  · rw [Size.foldl_add_mul]
    exact zero_add _

/-- The exact cost of a node, clamped, is its cost from the clamped cost of its children. -/
theorem CostNode.clamp_exactComplexity (n : CostNode) (defaultComplexity : Size) (children : Nat) :
    Size.clamp (n.exactComplexity defaultComplexity.toNat children) =
      n.complexity defaultComplexity (Size.clamp children) := by
  have hsum : Size.clamp (n.multipliers.map (·.toNat)).sum = n.multipliers.sum := by
    rw [map_list_sum, List.map_map]
    exact congrArg List.sum (List.map_id'' Size.clamp_toNat _)
  cases hk : n.kind with
  | container => simp only [exactComplexity, complexity, hk]
  | field cost =>
    rcases cost with _ | ⟨_ | complexity⟩ | ⟨complexity, assumedSize, names⟩
    · simp only [exactComplexity, complexity, hk, map_add, Size.clamp_toNat]
    · simp only [exactComplexity, complexity, hk, Option.map_none, Option.getD_none, map_add, Size.clamp_toNat]
    · simp only [exactComplexity, CostNode.complexity, hk, Option.map_some, Option.getD_some, map_add, Size.clamp_toNat]
    · rw [complexity_list hk]
      simp only [exactComplexity, hk, map_mul, map_add, apply_ite Size.clamp, hsum, Size.clamp_toNat]

namespace CostTree

/-- The node costs this by the plain recursion, no number being too large. -/
abbrev ExactlyCosts (t : CostTree) (defaultComplexity : Nat) : NodeId → Nat → Prop :=
  t.Refolds fun n => n.exactComplexity defaultComplexity

/-- A cost is the exact cost, clamped. -/
theorem exists_exactlyCosts {t : CostTree} {defaultComplexity v : Size} {id : NodeId}
    (h : t.Costs defaultComplexity id v) :
    ∃ exact, t.ExactlyCosts defaultComplexity.toNat id exact ∧ Size.clamp exact = v :=
  exists_of_refolds (Size.clamp : ℕ →+ Size) (fun n a => n.clamp_exactComplexity defaultComplexity a) h

end CostTree

end QueryCost
