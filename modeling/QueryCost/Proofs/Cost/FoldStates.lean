/-
  QueryCost.Proofs.Cost.FoldStates — the states of the fold, part by part.

  A node on the stack has its cursor behind the child it took up last and waits for that
  child's value; the children before that one are in its accumulator. A mark waits for the
  value of its body. Only a node that was just put on the stack waits for nothing, and such a
  node can only be on top. So the value in `folded` has one taker, which takes it once.

  - `awaited?`: the child whose value a stack waits for.
  - `Consistent`: what the stack, the value, the fragments in progress and the values known say
    of each other.
  - `Inv.consistent`: all of it follows from the invariant of the steps.
  - `iterations_consistent`: it holds whenever the loop takes up a frame, and after that.
-/

import QueryCost.Proofs.Cost.Iterations

namespace QueryCost

/-- The sum is that of the values of these children. -/
def CostTree.AddUp (t : CostTree) (d : Size) (children : List Child) (sum : Size) : Prop :=
  ∃ values, List.Forall₂ (t.RefoldsChild (·.complexity d)) children values ∧ sum = values.sum

namespace Frame

/-- The child a frame is there for. -/
def child : Frame → Child
  | .node id _ _ => .node id
  | .fragment f => .fragment f

/-- A node that has taken up a child waits for it, and a mark for its body. -/
def waits : Frame → Bool
  | .node _ next _ => 0 < next
  | .fragment _ => true

/-- Of the children before its cursor a node has added up all but the last. -/
def Added (t : CostTree) (d : Size) : Frame → Prop
  | .node id next acc => t.AddUp d ((t.node id).children.take (next - 1)) acc
  | .fragment _ => True

end Frame

namespace Folder

variable {t : CostTree} {d : Size} {root : NodeId} {s : Folder}

/-- The child whose value the stack waits for: the one its top node took up last, the body of
    its top mark, and the root when it is empty. -/
def awaited? (t : CostTree) (root : NodeId) : List Frame → Option Child
  | [] => some (.node root)
  | .node _ 0 _ :: _ => none
  | .node id (i + 1) _ :: _ => (t.node id).children[i]?
  | .fragment f :: _ => (t.fragments.get? f).map .node

/-- What is below a frame waits for what the frame is there for. -/
def Stacked (t : CostTree) (root : NodeId) : List Frame → Prop
  | [] => True
  | frame :: rest => awaited? t root rest = some frame.child ∧ Stacked t root rest

/-- The parts of a state agree with each other and with the plain recursion. -/
structure Consistent (t : CostTree) (d : Size) (root : NodeId) (s : Folder) : Prop where
  distinct : s.inProgress.Nodup
  named : ∀ f, f ∈ s.inProgressNames ↔ f ∈ s.inProgress
  /-- The marks have the top first, the fragments in progress the outermost. -/
  marked : s.inProgress = (marks s.stack).reverse
  /-- A fragment in progress has no value yet. -/
  unknown : ∀ f ∈ s.inProgress, s.known.get? f = none
  known : ∀ f v, s.known.get? f = some v → ∃ body, t.fragments.get? f = some body ∧ t.Costs d body v
  stacked : Stacked t root s.stack
  added : ∀ frame ∈ s.stack, frame.Added t d
  /-- With the value in `folded` a node on top has all children before its cursor. -/
  pending : ∀ id next acc rest, s.stack = .node id next acc :: rest →
    t.AddUp d ((t.node id).children.take next) (acc + s.folded.getD 0)
  held : s.folded.isSome ↔ ∀ frame ∈ s.stack.head?, frame.waits = true
  value : ∀ v, s.folded = some v → ∃ c, awaited? t root s.stack = some c ∧ t.RefoldsChild (·.complexity d) c v

/-! ## Stacks that wait for a value -/

section

variable {c : Child} {stack : List Frame} {folded : Option Size}

theorem awaited?_of_awaits (h : Awaits t d root c stack) : awaited? t root stack = some c := by
  cases h with
  | root => rfl
  | child hc _ _ => exact hc
  | body hb _ => simp [awaited?, hb]

theorem stacked_of_awaits (h : Awaits t d root c stack) : Stacked t root stack := by
  induction h with
  | root => trivial
  | child _ _ hrest ih => exact ⟨awaited?_of_awaits hrest, ih⟩
  | body _ hrest ih => exact ⟨awaited?_of_awaits hrest, ih⟩

theorem added_of_awaits (h : Awaits t d root c stack) : ∀ frame ∈ stack, frame.Added t d := by
  induction h with
  | root => nofun
  | child _ hbelow _ ih => exact List.forall_mem_cons.mpr ⟨⟨_, hbelow, rfl⟩, ih⟩
  | body _ _ ih => exact List.forall_mem_cons.mpr ⟨trivial, ih⟩

theorem waits_of_awaits (h : Awaits t d root c stack) : ∀ frame ∈ stack.head?, frame.waits = true := by
  cases h with
  | root => nofun
  | child _ _ _ => simp [Frame.waits]
  | body _ _ => simp [Frame.waits]

/-! ## Stacks with a new node on top, or with the value there -/

theorem stacked_of_due (h : Due t d root stack folded) : Stacked t root stack := by
  cases h with
  | fresh hrest => exact ⟨awaited?_of_awaits hrest, stacked_of_awaits hrest⟩
  | done hc _ => exact stacked_of_awaits hc

theorem added_of_due (h : Due t d root stack folded) : ∀ frame ∈ stack, frame.Added t d := by
  cases h with
  | fresh hrest => exact List.forall_mem_cons.mpr ⟨⟨[], .nil, rfl⟩, added_of_awaits hrest⟩
  | done hc _ => exact added_of_awaits hc

theorem held_of_due (h : Due t d root stack folded) :
    folded.isSome ↔ ∀ frame ∈ stack.head?, frame.waits = true := by
  cases h with
  | fresh _ => simp [Frame.waits]
  | done hc _ => exact iff_of_true rfl (waits_of_awaits hc)

theorem value_of_due (h : Due t d root stack folded) {v : Size} (hv : folded = some v) :
    ∃ c, awaited? t root stack = some c ∧ t.RefoldsChild (·.complexity d) c v := by
  cases h with
  | fresh _ => cases hv
  | done hc hvalue =>
    cases hv
    exact ⟨_, awaited?_of_awaits hc, hvalue⟩

end

theorem Inv.consistent (h : Inv t d root s) : s.Consistent t d root where
  distinct := h.distinct
  named := h.named
  marked := h.marked
  unknown := h.unknown
  known := h.known
  stacked := stacked_of_due h.due
  added := added_of_due h.due
  pending _ _ _ _ hst := (due_node (hst ▸ h.due)).2
  held := held_of_due h.due
  value _ hv := value_of_due h.due hv

/-! ## Iterations -/

/-- Whenever the loop takes up a frame, and when it has, the state is consistent. No fragment is
    in progress twice, and those that are, in the list and in the set, are those of the marks on
    the stack and have no value yet; every value known is that of the plain recursion. The
    accumulator of a node is the sum of the children it has come to, less the one it waits for,
    whose value is there exactly when what is on top waits for it or nothing is left. -/
theorem iterations_consistent (t : CostTree) (root : NodeId) (d : Size) (n : Nat) :
    ∀ s ∈ iterations t d n (start root),
      s.Consistent t d root ∧ ∀ s', s.step t d = .ok s' → s'.Consistent t d root := by
  have hinv : ∀ s ∈ iterations t d n (start root), Inv t d root s :=
    iterations_keep (fun hs hstep h => step_inv h hs hstep) n (start_inv t d root)
  intro s hs
  refine ⟨(hinv s hs).consistent, fun s' hstep => ?_⟩
  by_cases hempty : s.stack = []
  · have hsame : s' = s := by
      rw [step, hempty] at hstep
      exact (Except.ok.inj hstep).symm
    exact hsame ▸ (hinv s hs).consistent
  · exact (step_inv (hinv s hs) hempty hstep).consistent

/-- In the body of `B` the second spread of `C` has just been answered from what is known. -/
def answered : Folder where
  stack := [.node 2 2 1, .fragment "B", .node 1 1 0, .fragment "A", .node 0 1 0]
  folded := some 1
  known := .ofPairs [("C", 1)]
  inProgress := ["A", "B"]
  inProgressNames := .ofList ["A", "B"]
  log := []

/-- The first spread of `C` is in the accumulator, and with the value that is there both are. -/
theorem iterations_consistent_fanned :
    answered ∈ iterations CostTree.fanned 1 100 (start 0) ∧ answered.Consistent CostTree.fanned 1 0 ∧
      CostTree.fanned.AddUp 1 [.fragment "C"] 1 ∧ CostTree.fanned.AddUp 1 [.fragment "C", .fragment "C"] 2 ∧
      CostTree.fanned.Costs 1 3 1 := by
  have hmem : answered ∈ iterations CostTree.fanned 1 100 (start 0) := by decide +kernel
  obtain ⟨hconsistent, -⟩ := iterations_consistent CostTree.fanned 0 1 100 answered hmem
  have hadded := hconsistent.added (.node 2 2 1) (List.mem_cons_self ..)
  have hpending := hconsistent.pending 2 2 1 _ rfl
  obtain ⟨body, hbody, hvalue⟩ := hconsistent.known "C" 1 rfl
  obtain rfl : 3 = body := Option.some.inj hbody
  exact ⟨hmem, hconsistent, hadded, hpending, hvalue⟩

end Folder

end QueryCost
