/-
  QueryCost.Proofs.Cost.Iterations — how often the loop of the fold goes around.

  Spreads may expand to as much as a power of two of the document, or without end. The fold
  does not expand them: each time the loop goes around it does one thing that is there once,
  namely come to one of the references, end one of the nodes, or leave one of the fragments.

  - `iterations`: the states in which the loop takes up a frame, up to the end or a cycle.
  - `length_iterations_le`: each of them takes one off the work left.
  - `stepBound_le`: in a forest there is no more work than nodes, references and fragments,
    because the bodies of the fragments and what is attached do not overlap.
  - `nodup_begun`: no fragment's body is begun twice, since one that is begun is not
    `untouched` any more, and stays so.
  - `iterations_bounded`: both, for all forests, cyclic ones included.
  - `iterations_served`, `run_quiet`: where every spread has a body, the loop finds all the
    nodes and bodies it looks up.
-/

import QueryCost.Proofs.Cost.FoldResult
import QueryCost.Proofs.Cost.Forest
import Mathlib.Algebra.Order.BigOperators.Group.List
import Mathlib.Algebra.Order.Group.Nat

namespace QueryCost

namespace CostTree

variable {t : CostTree} {root : NodeId}

/-! ## The steps of a forest -/

theorem stepsBelow_eq (t : CostTree) (children : List Child) :
    t.stepsBelow children = children.length + ((children.filterMap Child.node?).map t.steps).sum := by
  induction children with
  | nil => rfl
  | cons child rest ih =>
    cases child with
    | node c =>
      rw [List.filterMap_cons_some (by rfl : Child.node? (.node c) = some c)]
      simp only [stepsBelow, ih, List.length_cons, List.map_cons, List.sum_cons]
      omega
    | fragment f =>
      rw [List.filterMap_cons_none (by rfl : Child.node? (.fragment f) = none)]
      simp only [stepsBelow, ih, List.length_cons]
      omega

/-- Every node takes a step, every reference does, and the attached nodes are counted again
    where they are attached. -/
theorem sum_steps (ht : t.Grounded root) :
    ((List.range t.nodes.size).map t.steps).sum = t.nodes.size + t.references + (t.attached.map t.steps).sum := by
  have hsum : ∀ ids : List NodeId, (ids.map t.steps).sum =
      ids.length + (ids.map fun id => (t.node id).children.length).sum +
        ((ids.flatMap fun id => (t.node id).children.filterMap Child.node?).map t.steps).sum := by
    intro ids
    induction ids with
    | nil => rfl
    | cons id rest ih =>
      have hid := steps_eq fun c hc => (ht.child_lt id c hc).1
      rw [stepsBelow_eq] at hid
      simp only [List.map_cons, List.sum_cons, List.length_cons, List.flatMap_cons, List.map_append, List.sum_append, ih,
        hid]
      omega
  rw [hsum, List.length_range, references, attached, nodes_toList, List.map_map, List.flatMap_map]
  rfl

/-- What is attached, the root and the fragments' nodes are all among the nodes. -/
theorem Forest.lt_size (ht : t.Forest root) : ∀ id ∈ t.attached ++ root :: t.fragments.values, id < t.nodes.size := by
  intro id hid
  rcases List.mem_append.mp hid with hid | hid
  · obtain ⟨p, hp⟩ := mem_attached.mp hid
    exact (ht.child_lt p id hp).2
  · rcases List.mem_cons.mp hid with rfl | hid
    · exact ht.root_lt
    · obtain ⟨⟨f, _⟩, hf, rfl⟩ := List.mem_map.mp hid
      exact ht.fragment_lt f _ (t.fragments.get?_eq_some_iff.mpr hf)

theorem stepBound_le (ht : t.Forest root) :
    t.stepBound root ≤ t.nodes.size + t.references + t.fragments.entries.length := by
  have hsubset : t.attached ++ root :: t.fragments.values ⊆ List.range t.nodes.size :=
    fun id hid => List.mem_range.mpr (ht.lt_size id hid)
  -- no node is counted twice, so the steps of these are no more than those of all
  obtain ⟨some, hperm, hsublist⟩ := ht.once.subperm hsubset
  have hle : (some.map t.steps).sum ≤ ((List.range t.nodes.size).map t.steps).sum :=
    (hsublist.map t.steps).sum_le_sum fun _ _ => Nat.zero_le _
  rw [(hperm.map t.steps).sum_eq, sum_steps ht.toGrounded, List.map_append, List.sum_append, List.map_cons,
    List.sum_cons] at hle
  have hmarks : ∀ ids : List NodeId, (ids.map fun id => t.steps id + 1).foldr (· + ·) 0 =
      (ids.map t.steps).sum + ids.length := by
    intro ids
    induction ids with
    | nil => rfl
    | cons id rest ih =>
      simp only [List.map_cons, List.foldr_cons, List.sum_cons, List.length_cons, ih]
      omega
  have hbound : t.stepBound root =
      t.steps root + (t.fragments.values.map fun id => t.steps id + 1).foldr (· + ·) 0 := rfl
  have hlength : t.fragments.values.length = t.fragments.entries.length := List.length_map _
  rw [hbound, hmarks, hlength]
  omega

end CostTree

namespace Folder

variable {t : CostTree} {d : Size} {root : NodeId} {s s' : Folder}

/-! ## Iterations -/

/-- The states in which the loop takes up a frame, the first `n` at most. -/
def iterations (t : CostTree) (d : Size) : Nat → Folder → List Folder
  | 0, _ => []
  | n + 1, s =>
    if s.stack.isEmpty then []
    else s :: match s.step t d with
      | .ok s' => iterations t d n s'
      | .error _ => []

theorem iterations_of_ok (hs : s.stack ≠ []) (hstep : s.step t d = .ok s') (n : Nat) :
    iterations t d (n + 1) s = s :: iterations t d n s' := by
  rw [iterations, if_neg (by simpa using hs), hstep]

theorem iterations_of_error {names : List String} (hs : s.stack ≠ []) (hstep : s.step t d = .error names) (n : Nat) :
    iterations t d (n + 1) s = [s] := by
  rw [iterations, if_neg (by simpa using hs), hstep]

theorem iterations_of_done (hs : s.stack = []) (n : Nat) : iterations t d n s = [] := by
  cases n with
  | zero => rfl
  | succ n => rw [iterations, if_pos (by simp [hs])]

/-- What every step keeps holds in every iteration. -/
theorem iterations_keep {P : Folder → Prop}
    (hstep : ∀ {s s' : Folder}, s.stack ≠ [] → s.step t d = .ok s' → P s → P s') (n : Nat) (h : P s) :
    ∀ x ∈ iterations t d n s, P x := by
  induction n generalizing s with
  | zero => nofun
  | succ n ih =>
    by_cases hs : s.stack = []
    · rw [iterations_of_done hs]
      nofun
    · intro x hx
      cases hout : s.step t d with
      | ok s' =>
        rw [iterations_of_ok hs hout] at hx
        rcases List.mem_cons.mp hx with rfl | hx
        · exact h
        · exact ih (hstep hs hout h) x hx
      | error names =>
        rw [iterations_of_error hs hout] at hx
        rw [List.mem_singleton.mp hx]
        exact h

theorem work_pos (t : CostTree) (hs : s.stack ≠ []) : 1 ≤ work t s := by
  obtain ⟨frame, rest, hst⟩ := List.exists_cons_of_ne_nil hs
  rw [work, hst, stackWork]
  cases frame <;> simp only [frameWork] <;> omega

/-- Each iteration takes one off the work left. -/
theorem length_iterations_le (ht : t.Grounded root) (n : Nat) (h : Inv t d root s) :
    (iterations t d n s).length ≤ work t s := by
  induction n generalizing s with
  | zero => exact Nat.zero_le _
  | succ n ih =>
    by_cases hs : s.stack = []
    · rw [iterations_of_done hs]
      exact Nat.zero_le _
    · cases hout : s.step t d with
      | ok s' =>
        have hrest := ih (step_inv h hs hout)
        rw [iterations_of_ok hs hout, List.length_cons, step_work ht h hs hout]
        exact Nat.succ_le_succ hrest
      | error names =>
        rw [iterations_of_error hs hout]
        exact work_pos t hs

/-- A run that is not cut short comes to the same with more steps. -/
theorem run_of_le {m n : Nat} (hle : m ≤ n) (h : (run t d m s).1 ≠ .unfinished) : run t d n s = run t d m s := by
  induction m generalizing n s with
  | zero =>
    unfold run at h ⊢
    split at h
    · rename_i hs
      rw [if_pos hs, if_pos hs]
    · exact absurd rfl h
  | succ m ih =>
    obtain _ | n := n
    · cases hle
    · unfold run at h ⊢
      split
      · rfl
      · rename_i hs
        rw [if_neg hs] at h
        simp only at h ⊢
        split
        · rename_i s' hstep
          rw [hstep] at h
          exact ih (Nat.le_of_succ_le_succ hle) h
        · rfl

/-! ## Fragments that are begun -/

/-- The fragment whose body has just been put on the stack. -/
def begun? (s : Folder) : Option String :=
  match s.stack with
  | .node _ 0 _ :: .fragment f :: _ => some f
  | _ => none

theorem begun?_eq_some {f : String} (h : s.begun? = some f) :
    ∃ id acc rest, s.stack = .node id 0 acc :: .fragment f :: rest := by
  unfold begun? at h
  split at h
  · rename_i id acc g rest hst
    cases h
    exact ⟨id, acc, rest, hst⟩
  · cases h

/-- A fragment that is begun is in progress. -/
theorem touched_of_begun {f : String} (h : Inv t d root s) (hf : s.begun? = some f) : s.untouched f = false := by
  obtain ⟨id, acc, rest, hst⟩ := begun?_eq_some hf
  have hmem : f ∈ s.inProgressNames := by
    rw [h.named, h.marked, hst]
    simp [marks]
  simp [untouched, hmem]

/-- What is begun stays begun, or is known. -/
theorem touched_of_step {f : String} (hs : s.stack ≠ []) (hstep : s.step t d = .ok s')
    (hf : s.untouched f = false) : s'.untouched f = false := by
  have htaken := step_taken t d hs
  rw [hstep] at htaken
  cases htaken with
  | finish hst hc => exact hf
  | descend hst hc => exact hf
  | reuse hst hc hv => exact hf
  | undefined hst hc hb => exact hf
  | enter hst hc hv hnot hb =>
    simp only [untouched, Bool.and_eq_false_iff, decide_eq_false_iff_not, not_not, NameSet.mem_add] at hf ⊢
    exact hf.imp_right .inl
  | @leave g rest hst =>
    simp only [untouched, Bool.and_eq_false_iff, decide_eq_false_iff_not, not_not, NameSet.mem_remove,
      Table.get?_insert] at hf ⊢
    by_cases hfg : g = f
    · exact .inl (by simp [hfg])
    · simp only [if_neg hfg]
      exact hf.imp_right fun hmem => ⟨hmem, fun e => hfg e.symm⟩

/-- Nothing has been added up yet where a body has just been put on the stack: a node that
    waits for a child has its cursor behind it. -/
theorem folded_of_begun {f : String} (h : Inv t d root s) (hf : s.begun? = some f) : s.folded = none := by
  obtain ⟨id, acc, rest, hst⟩ := begun?_eq_some hf
  have hdue := h.due
  rw [hst] at hdue
  generalize s.folded = folded at hdue
  cases hdue with
  | fresh _ => rfl
  | done hc _ => nomatch hc

/-- A body is put on the stack only for a fragment that was untouched. -/
theorem untouched_of_begun {f : String} (h : Inv t d root s) (hs : s.stack ≠ []) (hstep : s.step t d = .ok s')
    (hf : s'.begun? = some f) : s.untouched f = true := by
  have hfolded := folded_of_begun (step_inv h hs hstep) hf
  obtain ⟨id, acc, rest, hst'⟩ := begun?_eq_some hf
  have htaken := step_taken t d hs
  rw [hstep] at htaken
  cases htaken with
  | finish _ _ => cases hfolded
  | descend _ _ => cases hst'
  | reuse _ _ _ => cases hfolded
  | undefined _ _ _ => cases hfolded
  | enter _ _ hv hnot _ =>
    cases hst'
    simp [untouched, hv, hnot]
  | leave _ => cases hfolded

/-- All that is begun after a step was untouched before it. -/
theorem untouched_of_mem {f : String} (n : Nat) (h : Inv t d root s) (hs : s.stack ≠ []) (hstep : s.step t d = .ok s')
    (hf : f ∈ (iterations t d n s').filterMap begun?) : s.untouched f = true := by
  induction n generalizing s s' with
  | zero => cases hf
  | succ n ih =>
    by_cases hs' : s'.stack = []
    · rw [iterations_of_done hs'] at hf
      cases hf
    · obtain ⟨x, hx, hbegun⟩ := List.mem_filterMap.mp hf
      cases hout : s'.step t d with
      | error names =>
        rw [iterations_of_error hs' hout, List.mem_singleton] at hx
        subst hx
        exact untouched_of_begun h hs hstep hbegun
      | ok s'' =>
        rw [iterations_of_ok hs' hout] at hx
        rcases List.mem_cons.mp hx with rfl | hx
        · exact untouched_of_begun h hs hstep hbegun
        · -- untouched one step later, so untouched now
          have hlater := ih (step_inv h hs hstep) hs' hout (List.mem_filterMap.mpr ⟨x, hx, hbegun⟩)
          by_contra hnot
          rw [touched_of_step hs hstep (by simpa using hnot)] at hlater
          cases hlater

/-- No fragment is begun twice. -/
theorem nodup_begun (n : Nat) (h : Inv t d root s) : ((iterations t d n s).filterMap begun?).Nodup := by
  induction n generalizing s with
  | zero => exact List.nodup_nil
  | succ n ih =>
    by_cases hs : s.stack = []
    · rw [iterations_of_done hs]
      exact List.nodup_nil
    · cases hout : s.step t d with
      | error names =>
        rw [iterations_of_error hs hout]
        cases hbegun : s.begun? <;> simp [hbegun]
      | ok s' =>
        have hrest := ih (step_inv h hs hout)
        rw [iterations_of_ok hs hout]
        cases hbegun : s.begun? with
        | none => rwa [List.filterMap_cons_none hbegun]
        | some f =>
          rw [List.filterMap_cons_some hbegun, List.nodup_cons]
          refine ⟨fun hf => ?_, hrest⟩
          have huntouched := untouched_of_mem n h hs hout hf
          rw [touched_of_begun h hbegun] at huntouched
          cases huntouched

/-! ## What the loop looks up -/

/-- The nodes on a stack, the top first. -/
def nodesOn : List Frame → List NodeId
  | [] => []
  | .node id _ _ :: rest => id :: nodesOn rest
  | .fragment _ :: rest => nodesOn rest

/-- The nodes on the stack are nodes of the tree, and the spread that is taken up next, where
    it is one, has a body. -/
structure Served (t : CostTree) (s : Folder) : Prop where
  nodes : ∀ id ∈ nodesOn s.stack, id < t.nodes.size
  spread : ∀ id next acc rest f, s.stack = .node id next acc :: rest →
    (t.node id).children[next]? = some (.fragment f) → (t.fragments.get? f).isSome

/-- A step puts no node on the stack that is not in the tree. -/
theorem nodes_of_step (ht : t.Grounded root) (hs : s.stack ≠ []) (hstep : s.step t d = .ok s')
    (h : ∀ id ∈ nodesOn s.stack, id < t.nodes.size) : ∀ id ∈ nodesOn s'.stack, id < t.nodes.size := by
  have htaken := step_taken t d hs
  rw [hstep] at htaken
  cases htaken with
  | finish hst _ =>
    rw [hst, nodesOn, List.forall_mem_cons] at h
    exact h.2
  | descend hst hc =>
    rw [hst, nodesOn] at h
    exact List.forall_mem_cons.mpr ⟨(ht.child_lt _ _ (List.mem_of_getElem? hc)).2, h⟩
  | reuse hst _ _ | undefined hst _ _ | leave hst =>
    rw [hst, nodesOn] at h
    exact h
  | enter hst _ _ _ hb =>
    rw [hst, nodesOn] at h
    exact List.forall_mem_cons.mpr ⟨ht.fragment_lt _ _ hb, h⟩

/-- Where every spread has a body, the loop finds all it looks up. -/
theorem iterations_served (ht : t.Grounded root) (hnamed : t.Named fun f => (t.fragments.get? f).isSome) (n : Nat) :
    ∀ s ∈ iterations t d n (start root), Served t s := by
  have hstart : ∀ id ∈ nodesOn (start root).stack, id < t.nodes.size := by
    intro id hid
    rw [List.mem_singleton.mp hid]
    exact ht.root_lt
  have hnodes := iterations_keep (fun hs hstep h => nodes_of_step (d := d) ht hs hstep h) n hstart
  refine fun s hs => ⟨hnodes s hs, fun id next acc rest f _ hc => ?_⟩
  exact hnamed id f (List.mem_of_getElem? hc)

/-- There the fold has nothing to say about spreads it does not know. -/
theorem run_quiet (hnamed : t.Named fun f => (t.fragments.get? f).isSome) (n : Nat) (s : Folder) :
    (run t d n s).2 = s.log := by
  induction n generalizing s with
  | zero => unfold run; split <;> rfl
  | succ n ih =>
    unfold run
    split
    · rfl
    · rename_i hs
      have htaken := step_taken t d fun e => hs (List.isEmpty_iff.mpr e)
      simp only
      split
      · rename_i s' hstep
        rw [hstep] at htaken
        rw [ih s']
        cases htaken with
        | undefined hst hc hb =>
          have hdefined := hnamed _ _ (List.mem_of_getElem? hc)
          simp [hb] at hdefined
        | finish _ _ | descend _ _ | reuse _ _ _ | enter _ _ _ _ _ | leave _ => rfl
      · rfl

end Folder

/-- In a forest, cyclic or not, the loop of the fold goes around no more often than there are
    nodes, references and fragments, and no fragment's body is begun twice. That many steps
    are enough: the fold comes to its end with them, and to the same with more. -/
theorem CostTree.iterations_bounded {t : CostTree} {root : NodeId} (ht : t.Forest root) (d : Size) :
    (∀ n, (Folder.iterations t d n (.start root)).length ≤
      t.nodes.size + t.references + t.fragments.entries.length) ∧
    (∀ n, ((Folder.iterations t d n (.start root)).filterMap Folder.begun?).Nodup) ∧
    ∀ n, t.nodes.size + t.references + t.fragments.entries.length ≤ n →
      Folder.run t d n (.start root) = t.fold root d ∧ (Folder.run t d n (.start root)).1 ≠ .unfinished := by
  have hinv := Folder.start_inv t d root
  have hbound := stepBound_le ht
  have hfinished := fold_finished ht.toGrounded d
  refine ⟨fun n => ?_, fun n => Folder.nodup_begun n hinv, fun n hn => ?_⟩
  · have hlength := Folder.length_iterations_le ht.toGrounded n hinv
    rw [Folder.work_start ht.toGrounded] at hlength
    exact Nat.le_trans hlength hbound
  · have hrun : Folder.run t d n (.start root) = t.fold root d :=
      Folder.run_of_le (Nat.le_trans hbound hn) hfinished
    exact ⟨hrun, hrun ▸ hfinished⟩

namespace CostTree

/-- Three fragments in a row, each spread twice by what comes before it. -/
def fanned : CostTree where
  nodes := #[⟨.container, 0, [], [.fragment "A", .fragment "A"]⟩,
    ⟨.container, 0, [], [.fragment "B", .fragment "B"]⟩,
    ⟨.container, 0, [], [.fragment "C", .fragment "C"]⟩,
    ⟨.container, 0, [], [.node 4]⟩,
    ⟨.field none, 0, [], []⟩]
  fragments := .ofPairs [("A", 1), ("B", 2), ("C", 3)]

/-- The same, the last leading back to the first. -/
def wound : CostTree := fanned.attach 4 (.fragment "A")

/-- The one field counts eight times and is added up once; five nodes, seven references and
    three fragments are all there is to do. Where they lead back, the fold ends as well. -/
theorem iterations_bounded_fanned :
    fanned.Forest 0 ∧ wound.Forest 0 ∧ Folder.run fanned 1 15 (.start 0) = (.total 8, []) ∧
      (Folder.iterations fanned 1 100 (.start 0)).length = 15 ∧
      (Folder.iterations fanned 1 100 (.start 0)).filterMap Folder.begun? = ["A", "B", "C"] ∧
      (Folder.run wound 1 16 (.start 0)).1 = .cycle ["A", "B", "C", "A"] ∧
      ((Folder.iterations wound 1 100 (.start 0)).filterMap Folder.begun?).Nodup := by
  have hfanned : fanned.Forest 0 := by decide +kernel
  have hwound : wound.Forest 0 := by decide +kernel
  have hfold : fanned.fold 0 1 = (.total 8, []) := by decide +kernel
  have hcycle : (wound.fold 0 1).1 = .cycle ["A", "B", "C", "A"] := by decide +kernel
  obtain ⟨-, -, hruns⟩ := iterations_bounded hfanned 1
  obtain ⟨-, hbegun, hruns'⟩ := iterations_bounded hwound 1
  refine ⟨hfanned, hwound, ?_, by decide +kernel, by decide +kernel, ?_, hbegun 100⟩
  · rw [(hruns 15 (by decide +kernel)).1, hfold]
  · rw [(hruns' 16 (by decide +kernel)).1, hcycle]

end CostTree

end QueryCost
