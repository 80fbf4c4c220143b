/-
  QueryCost.Proofs.Cost.FoldResult — what the fold of a tree comes to.

  In a tree whose references are grounded the fold comes to the value of the plain
  recursion where that ends (`fold_total_iff`), and to a cycle where a fragment that is
  reached spreads itself (`fold_cycle_iff`). That fragments are added up once, whatever
  spreads them and how often, cannot be seen in the total (`fold_eq_recursion`).
-/

import QueryCost.Proofs.Cost.FoldSteps

namespace QueryCost.CostTree

variable {t : CostTree} {root : NodeId} {d v : Size} {names : List String}

theorem fold_sound (t : CostTree) (root : NodeId) (d : Size) : Folder.Sound t d root (t.fold root d).1 :=
  Folder.run_sound _ (Folder.start_inv t d root)

theorem fold_total_iff (ht : t.Grounded root) : (t.fold root d).1 = .total v ↔ t.Costs d root v := by
  have hsound := t.fold_sound root d
  have hfinished := fold_finished ht d
  cases hr : (t.fold root d).1 with
  | total w =>
    rw [hr] at hsound
    have hw : t.Costs d root w := hsound
    rw [FoldResult.total.injEq]
    exact ⟨fun e => e ▸ hw, fun hv => refolds_unique hw hv⟩
  | cycle names =>
    rw [hr] at hsound
    have hcyclic := cyclic_of_isCycle hsound
    exact ⟨nofun, fun h => absurd hcyclic (not_cyclic_of_refolds h)⟩
  | unfinished => exact absurd hr hfinished

theorem isCycle_of_fold (h : (t.fold root d).1 = .cycle names) : t.IsCycle root names := by
  have hsound := t.fold_sound root d
  rw [h] at hsound
  exact hsound

theorem fold_cycle_iff (ht : t.Grounded root) : (∃ names, (t.fold root d).1 = .cycle names) ↔ t.Cyclic root := by
  constructor
  · rintro ⟨names, h⟩
    exact cyclic_of_isCycle (isCycle_of_fold h)
  · intro hcyclic
    cases hr : (t.fold root d).1 with
    | total w => exact absurd hcyclic (not_cyclic_of_refolds ((fold_total_iff ht).mp hr))
    | cycle names => exact ⟨names, rfl⟩
    | unfinished => exact absurd hr (fold_finished ht d)

/-- Where no fragment that is reached spreads itself, the fold comes to the value of the
    plain recursion, which adds up the body of a fragment anew at every spread. -/
theorem fold_eq_recursion (ht : t.Grounded root) (hacyclic : ¬ t.Cyclic root) (d : Size) :
    ∃ total, (t.fold root d).1 = .total total ∧ t.Costs d root total := by
  cases hr : (t.fold root d).1 with
  | total w => exact ⟨w, rfl, (fold_total_iff ht).mp hr⟩
  | cycle names => exact absurd (cyclic_of_isCycle (isCycle_of_fold hr)) hacyclic
  | unfinished => exact absurd hr (fold_finished ht d)

/-- A document that spreads `B`, `A`, `B` again and a fragment there is none of. `A` is a
    list whose elements come to 25: two spreads of `B`, which has a cost of 11, and three. -/
def diamond : CostTree where
  nodes := #[⟨.container, 0, [], [.fragment "B", .fragment "A", .fragment "B", .fragment "C"]⟩,
    ⟨.container, 0, [], [.node 2]⟩,
    ⟨.field (some (.list (some 2) none (.ofList ["first"]))), 0, [2, 3], [.fragment "B", .node 3, .fragment "B"]⟩,
    ⟨.field none, 0, [], []⟩,
    ⟨.container, 0, [], [.node 5, .node 6]⟩,
    ⟨.field (some (.flat (some 10))), 0, [], []⟩,
    ⟨.field none, 0, [], []⟩]
  fragments := .ofPairs [("A", 1), ("B", 4)]

theorem fold_diamond : (diamond.fold 0 1).1 = .total 147 := by decide +kernel

theorem fold_eq_recursion_diamond :
    diamond.Grounded 0 ∧ ¬ diamond.Cyclic 0 ∧ (diamond.fold 0 1).1 = .total 147 ∧
      diamond.Costs 1 0 147 := by
  have hgrounded : diamond.Grounded 0 := by decide +kernel
  have hacyclic : ¬ diamond.Cyclic 0 := not_cyclic_of_refolds ((fold_total_iff hgrounded).mp fold_diamond)
  obtain ⟨total, hfold, hplain⟩ := fold_eq_recursion hgrounded hacyclic 1
  have htotal : total = 147 := FoldResult.total.inj (hfold.symm.trans fold_diamond)
  exact ⟨hgrounded, hacyclic, fold_diamond, htotal ▸ hplain⟩

end QueryCost.CostTree
