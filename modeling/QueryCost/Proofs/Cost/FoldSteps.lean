/-
  QueryCost.Proofs.Cost.FoldSteps — the fold ends.

  The work left to a fold is one step for each frame, one for each child its frames have
  not come to, the steps of those children, and the bodies and marks of the fragments not
  begun. Every step takes one off it (`step_work`): a body that is begun moves from the
  fragments to the stack, and no fragment is begun twice. At the start it is the bound the
  fold is given (`work_start`), so in a tree whose children have higher numbers than their
  parents (`Grounded`) no fold is cut short (`fold_finished`).
-/

import QueryCost.Proofs.Cost.FoldInvariant

namespace QueryCost

namespace CostTree

/-- References point to nodes there are, those to children at later ones. -/
structure Grounded (t : CostTree) (root : NodeId) : Prop where
  root_lt : root < t.nodes.size
  child_lt : ∀ p c, .node c ∈ (t.node p).children → p < c ∧ c < t.nodes.size
  fragment_lt : ∀ f body, t.fragments.get? f = some body → body < t.nodes.size

/-- The test for it. -/
def isGrounded (t : CostTree) (root : NodeId) : Bool :=
  root < t.nodes.size &&
    (List.range t.nodes.size).all (fun p => (t.node p).children.all fun
      | .node c => p < c && c < t.nodes.size
      | .fragment _ => true) &&
    t.fragments.values.all (· < t.nodes.size)

theorem node_of_le {t : CostTree} {id : NodeId} (h : t.nodes.size ≤ id) : t.node id = .container := by
  simp [node, Array.getElem?_eq_none h]

theorem isGrounded_iff {t : CostTree} {root : NodeId} : t.isGrounded root = true ↔ t.Grounded root := by
  simp only [isGrounded, Bool.and_eq_true, decide_eq_true_eq, List.all_eq_true, List.mem_range]
  constructor
  · rintro ⟨⟨hroot, hchild⟩, hfragment⟩
    refine ⟨hroot, fun p c hc => ?_, fun f body hf => ?_⟩
    · by_cases hp : p < t.nodes.size
      · simpa using hchild p hp (.node c) hc
      · rw [node_of_le (Nat.le_of_not_lt hp)] at hc
        cases hc
    · exact hfragment body (List.mem_map_of_mem (t.fragments.get?_eq_some_iff.mp hf))
  · intro h
    refine ⟨⟨h.root_lt, fun p _ child hc => ?_⟩, fun body hbody => ?_⟩
    · cases child with
      | node c => simpa using h.child_lt p c hc
      | fragment f => rfl
    · obtain ⟨⟨f, _⟩, hf, rfl⟩ := List.mem_map.mp hbody
      exact h.fragment_lt f _ (t.fragments.get?_eq_some_iff.mpr hf)

instance (t : CostTree) (root : NodeId) : Decidable (t.Grounded root) := decidable_of_iff _ isGrounded_iff

/-! ## The steps of a node -/

/-- How many steps the node takes, those of its attached children included. -/
def steps (t : CostTree) (id : NodeId) : Nat := (nodeSteps 0 t.nodes.toList)[id]?.getD 1

/-- How many steps these children of a node take together. -/
def stepsBelow (t : CostTree) : List Child → Nat
  | [] => 0
  | .node c :: rest => 1 + t.steps c + t.stepsBelow rest
  | .fragment _ :: rest => 1 + t.stepsBelow rest

theorem nodeSteps_drop (i : NodeId) (nodes : List CostNode) (k : Nat) :
    (nodeSteps i nodes).drop k = nodeSteps (i + k) (nodes.drop k) := by
  induction nodes generalizing i k with
  | nil => cases k <;> rfl
  | cons n rest ih =>
    cases k with
    | zero => rfl
    | succ k =>
      show (nodeSteps (i + 1) rest).drop k = nodeSteps (i + (k + 1)) (rest.drop k)
      rw [ih, Nat.add_right_comm, Nat.add_assoc]

theorem nodeSteps_length (i : NodeId) (nodes : List CostNode) : (nodeSteps i nodes).length = nodes.length := by
  induction nodes generalizing i with
  | nil => rfl
  | cons n rest ih => simp [nodeSteps, ih]

theorem childSteps_later (t : CostTree) {id c : Nat} (h : id < c) :
    childSteps (nodeSteps (id + 1) (t.nodes.toList.drop (id + 1))) id (.node c) = t.steps c := by
  have hdrop := nodeSteps_drop 0 t.nodes.toList (id + 1)
  have hat : id + 1 + (c - id - 1) = c := by omega
  rw [Nat.zero_add] at hdrop
  rw [childSteps, if_pos h, ← hdrop, List.getElem?_drop, hat, steps]

theorem length_add_sum_childSteps (t : CostTree) {id : NodeId} {children : List Child}
    (h : ∀ c, .node c ∈ children → id < c) :
    children.length + ((children.map (childSteps (nodeSteps (id + 1) (t.nodes.toList.drop (id + 1))) id)).foldr
      (· + ·) 0) = t.stepsBelow children := by
  induction children with
  | nil => rfl
  | cons child rest ih =>
    have hrest := ih fun c hc => h c (List.mem_cons_of_mem _ hc)
    cases child with
    | node c =>
      have hc := childSteps_later t (h c (List.mem_cons_self ..))
      simp only [List.length_cons, List.map_cons, List.foldr_cons, hc, stepsBelow]
      omega
    | fragment f =>
      simp only [List.length_cons, List.map_cons, List.foldr_cons, childSteps, stepsBelow]
      omega

theorem steps_eq {t : CostTree} {id : NodeId} (h : ∀ c, .node c ∈ (t.node id).children → id < c) :
    t.steps id = 1 + t.stepsBelow (t.node id).children := by
  by_cases hid : id < t.nodes.size
  · have hnode : t.node id = t.nodes[id] := by simp [node, hid]
    have hsteps : (nodeSteps 0 t.nodes.toList)[id]? = (nodeSteps id (t.nodes.toList.drop id)).head? := by
      have hdrop := nodeSteps_drop 0 t.nodes.toList id
      rw [Nat.zero_add] at hdrop
      rw [← hdrop, List.head?_drop]
    have hcons : t.nodes.toList.drop id = t.node id :: t.nodes.toList.drop (id + 1) := by
      rw [hnode, List.drop_eq_getElem_cons (by simpa using hid), Array.getElem_toList]
    rw [steps, hsteps, hcons, ← length_add_sum_childSteps t h]
    simp only [nodeSteps, List.head?_cons, Option.getD_some]
    omega
  · have hlength := nodeSteps_length 0 t.nodes.toList
    rw [node_of_le (Nat.le_of_not_lt hid), steps, List.getElem?_eq_none (by rw [hlength]; simpa using hid)]
    rfl

end CostTree

namespace Folder

variable {t : CostTree} {d : Size} {root : NodeId}

/-! ## The work left -/

def frameWork (t : CostTree) : Frame → Nat
  | .node id next _ => 1 + t.stepsBelow ((t.node id).children.drop next)
  | .fragment _ => 1

def stackWork (t : CostTree) : List Frame → Nat
  | [] => 0
  | frame :: rest => frameWork t frame + stackWork t rest

/-- Not begun, and so not ended. -/
def untouched (s : Folder) (f : String) : Bool := (s.known.get? f).isNone && f ∉ s.inProgressNames

/-- The steps of the fragments not begun. -/
def fragmentWork (t : CostTree) (untouched : String → Bool) : List (String × NodeId) → Nat
  | [] => 0
  | (f, body) :: rest => (if untouched f then t.steps body + 1 else 0) + fragmentWork t untouched rest

def work (t : CostTree) (s : Folder) : Nat := stackWork t s.stack + fragmentWork t s.untouched t.fragments.entries

theorem fragmentWork_congr {p q : String → Bool} {entries : List (String × NodeId)}
    (h : ∀ f ∈ entries.map Prod.fst, p f = q f) : fragmentWork t p entries = fragmentWork t q entries := by
  induction entries with
  | nil => rfl
  | cons entry rest ih =>
    obtain ⟨f, body⟩ := entry
    simp only [List.map_cons, List.mem_cons, forall_eq_or_imp] at h
    rw [fragmentWork, fragmentWork, h.1, ih h.2]

/-- A fragment that is begun takes its steps with it. -/
theorem fragmentWork_begin {p q : String → Bool} {entries : List (String × NodeId)} {f : String} {body : NodeId}
    (hdistinct : (entries.map Prod.fst).Nodup) (hf : Entries.get? f entries = some body) (hp : p f = true)
    (hq : q f = false) (hother : ∀ g, g ≠ f → p g = q g) :
    fragmentWork t p entries = fragmentWork t q entries + (t.steps body + 1) := by
  induction entries with
  | nil => cases hf
  | cons entry rest ih =>
    obtain ⟨g, b⟩ := entry
    obtain ⟨hg, hrest⟩ := List.nodup_cons.mp hdistinct
    unfold Entries.get? at hf
    split at hf
    · rename_i e
      cases hf
      have hsame : fragmentWork t p rest = fragmentWork t q rest :=
        fragmentWork_congr fun h hh => hother h fun e' => hg (by rw [e, ← e']; exact hh)
      rw [fragmentWork, fragmentWork, hsame, e, if_pos hp, hq]
      simp
      omega
    · rename_i e
      have := ih hrest hf
      rw [fragmentWork, fragmentWork, hother g e, this]
      omega

/-! ## Every step takes one off -/

theorem frameWork_new (ht : t.Grounded root) (id : NodeId) : frameWork t (.node id 0 0) = t.steps id := by
  rw [CostTree.steps_eq fun c hc => (ht.child_lt id c hc).1]
  rfl

/-- Moving the cursor of a node behind a child takes off the child's steps and one. -/
theorem stackWork_next {id next : Nat} {child : Child} (hc : (t.node id).children[next]? = some child)
    (acc acc' : Size) (rest : List Frame) :
    stackWork t (.node id next acc :: rest) =
      stackWork t (.node id (next + 1) acc' :: rest) + t.stepsBelow [child] := by
  obtain ⟨hlt, rfl⟩ := List.getElem?_eq_some_iff.mp hc
  simp only [stackWork, frameWork, List.drop_eq_getElem_cons hlt]
  cases (t.node id).children[next] <;> simp only [CostTree.stepsBelow] <;> omega

theorem step_work (ht : t.Grounded root) {s s' : Folder} (h : Inv t d root s) (hs : s.stack ≠ [])
    (hstep : s.step t d = .ok s') : work t s = work t s' + 1 := by
  have htaken := step_taken t d hs
  rw [hstep] at htaken
  unfold work
  cases htaken with
  | @finish id next acc rest hst hc =>
    have hdrop : (t.node id).children.drop next = [] := List.drop_eq_nil_iff.mpr (List.getElem?_eq_none_iff.mp hc)
    show _ = stackWork t rest + fragmentWork t s.untouched t.fragments.entries + 1
    rw [hst, stackWork, frameWork, hdrop, CostTree.stepsBelow]
    omega
  | @descend id next acc rest c hst hc =>
    show _ = stackWork t (.node c 0 0 :: .node id (next + 1) (acc + s.folded.getD 0) :: rest) +
      fragmentWork t s.untouched t.fragments.entries + 1
    rw [hst, stackWork_next hc acc (acc + s.folded.getD 0), stackWork, stackWork, stackWork, frameWork_new ht]
    simp only [CostTree.stepsBelow]
    omega
  | @reuse id next acc rest f v hst hc hv =>
    show _ = stackWork t (.node id (next + 1) (acc + s.folded.getD 0) :: rest) +
      fragmentWork t s.untouched t.fragments.entries + 1
    rw [hst, stackWork_next hc acc (acc + s.folded.getD 0)]
    simp only [CostTree.stepsBelow]
    omega
  | @undefined id next acc rest f hst hc hb =>
    show _ = stackWork t (.node id (next + 1) (acc + s.folded.getD 0) :: rest) +
      fragmentWork t s.untouched t.fragments.entries + 1
    rw [hst, stackWork_next hc acc (acc + s.folded.getD 0)]
    simp only [CostTree.stepsBelow]
    omega
  | @enter id next acc rest f body hst hc hv hf hb =>
    -- the steps of the body leave the fragments and come on the stack
    let s' : Folder := { s with inProgressNames := s.inProgressNames.add f }
    have hbegin : fragmentWork t s.untouched t.fragments.entries =
        fragmentWork t s'.untouched t.fragments.entries + (t.steps body + 1) := by
      refine fragmentWork_begin t.fragments.nodup hb (by simp [untouched, hv, hf]) ?_ fun g hg => ?_
      · simp [untouched, s', NameSet.mem_add]
      · simp [untouched, s', NameSet.mem_add, hg]
    show _ = stackWork t (.node body 0 0 :: .fragment f :: .node id (next + 1) (acc + s.folded.getD 0) :: rest) +
      fragmentWork t s'.untouched t.fragments.entries + 1
    rw [hbegin, hst, stackWork_next hc acc (acc + s.folded.getD 0), stackWork, stackWork, stackWork, stackWork,
      frameWork_new ht]
    simp only [frameWork, CostTree.stepsBelow]
    omega
  | @leave f rest hst =>
    let s' : Folder := { s with
      known := s.known.insert f (s.folded.getD 0), inProgressNames := s.inProgressNames.remove f }
    have hbegun : f ∈ s.inProgressNames := by
      rw [h.named, h.marked, hst]
      simp [marks]
    have hsame : fragmentWork t s.untouched t.fragments.entries = fragmentWork t s'.untouched t.fragments.entries := by
      refine fragmentWork_congr fun g _ => ?_
      by_cases hg : g = f
      · subst hg
        simp [untouched, s', hbegun, Table.get?_insert]
      · simp [untouched, s', NameSet.mem_remove, Table.get?_insert, hg, Ne.symm hg]
    show _ = stackWork t rest + fragmentWork t s'.untouched t.fragments.entries + 1
    rw [hsame, hst, stackWork, frameWork]
    omega

theorem run_finished (ht : t.Grounded root) (n : Nat) {s : Folder} (h : Inv t d root s) (hn : work t s ≤ n) :
    (run t d n s).1 ≠ .unfinished := by
  induction n generalizing s with
  | zero =>
    unfold run
    split
    · simp
    · rename_i he
      obtain ⟨frame, rest, hst⟩ := List.exists_cons_of_ne_nil fun e => he (List.isEmpty_iff.mpr e)
      rw [work, hst, stackWork] at hn
      cases frame <;> simp only [frameWork] at hn <;> omega
  | succ n ih =>
    unfold run
    split
    · simp
    · rename_i he
      have hs : s.stack ≠ [] := fun e => he (List.isEmpty_iff.mpr e)
      simp only
      split
      · rename_i s' hstep
        have hwork := step_work ht h hs hstep
        exact ih (step_inv h hs hstep) (by omega)
      · simp

/-! ## The bound -/

theorem fragmentWork_all (entries : List (String × NodeId)) :
    fragmentWork t (fun _ => true) entries =
      ((entries.map Prod.snd).map fun id => t.steps id + 1).foldr (· + ·) 0 := by
  induction entries with
  | nil => rfl
  | cons entry rest ih =>
    obtain ⟨f, body⟩ := entry
    rw [fragmentWork, ih, if_pos rfl]
    rfl

theorem work_start (ht : t.Grounded root) : work t (start root) = t.stepBound root := by
  have hall : (start root).untouched = fun _ => true := funext fun _ => rfl
  rw [work, hall, fragmentWork_all, start, stackWork, stackWork, frameWork_new ht, Nat.add_zero]
  rfl

end Folder

/-- The fold of a tree is never cut short. -/
theorem CostTree.fold_finished {t : CostTree} {root : NodeId} (ht : t.Grounded root) (d : Size) :
    (t.fold root d).1 ≠ .unfinished :=
  Folder.run_finished ht _ (Folder.start_inv t d root) (Nat.le_of_eq (Folder.work_start ht))

end QueryCost
