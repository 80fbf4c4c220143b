/-
  QueryCost.Proofs.Cost.FoldInvariant — what holds at every step of the fold.

  `Taken` says what a step can do, in seven cases: a node ends; a child node is begun; a
  spread is answered from the values known, ends the fold as a cycle, counts nothing or
  begins a body; a body ends.

  A stack waits for the value of one child (`Awaits`): the root when it is empty, the child
  before the cursor when a node is on top, the body of the fragment when a mark is. The
  accumulator of a node is the sum of the children before that one. At every step `folded`
  holds just that value, or there is none and the frame on top is new (`Due`). The rest of
  the invariant (`Inv`) ties the fragments in progress to the marks of the stack and the
  values known to the plain recursion.

  - `step_inv`: every step keeps the invariant.
  - `run_sound`: a total is the value of the plain recursion, and a cycle is one
    (`IsCycle`): it leads from a fragment that is reached back to it, each fragment
    spreading the next, and to no other fragment twice.
-/

import QueryCost.Cost.Fold
import QueryCost.Proofs.Cost.Refold

namespace QueryCost

namespace Folder

variable {t : CostTree} {d : Size} {root : NodeId}

/-! ## Steps -/

/-- What a step comes to, by the frame on top and the child at its cursor. -/
inductive Taken (t : CostTree) (d : Size) (s : Folder) : Except (List String) Folder → Prop
  | finish {id next acc rest} : s.stack = .node id next acc :: rest → (t.node id).children[next]? = none →
      Taken t d s (.ok { s with
        stack := rest, folded := some ((t.node id).complexity d (acc + s.folded.getD 0)) })
  | descend {id next acc rest c} : s.stack = .node id next acc :: rest →
      (t.node id).children[next]? = some (.node c) →
      Taken t d s (.ok { s with
        stack := .node c 0 0 :: .node id (next + 1) (acc + s.folded.getD 0) :: rest, folded := none })
  | reuse {id next acc rest f v} : s.stack = .node id next acc :: rest →
      (t.node id).children[next]? = some (.fragment f) → s.known.get? f = some v →
      Taken t d s (.ok { s with stack := .node id (next + 1) (acc + s.folded.getD 0) :: rest, folded := some v })
  | cycle {id next acc rest f} : s.stack = .node id next acc :: rest →
      (t.node id).children[next]? = some (.fragment f) → f ∈ s.inProgressNames →
      Taken t d s (.error (s.inProgress.dropWhile (· ≠ f) ++ [f]))
  | undefined {id next acc rest f} : s.stack = .node id next acc :: rest →
      (t.node id).children[next]? = some (.fragment f) → t.fragments.get? f = none →
      Taken t d s (.ok { s with
        stack := .node id (next + 1) (acc + s.folded.getD 0) :: rest, folded := some 0
        log := s.log ++ [.undefinedFragment f] })
  | enter {id next acc rest f body} : s.stack = .node id next acc :: rest →
      (t.node id).children[next]? = some (.fragment f) → s.known.get? f = none → f ∉ s.inProgressNames →
      t.fragments.get? f = some body →
      Taken t d s (.ok { s with
        stack := .node body 0 0 :: .fragment f :: .node id (next + 1) (acc + s.folded.getD 0) :: rest
        folded := none, inProgress := s.inProgress ++ [f], inProgressNames := s.inProgressNames.add f })
  | leave {f rest} : s.stack = .fragment f :: rest →
      Taken t d s (.ok { s with
        stack := rest, folded := some (s.folded.getD 0), known := s.known.insert f (s.folded.getD 0)
        inProgress := s.inProgress.dropLast, inProgressNames := s.inProgressNames.remove f })

theorem step_taken (t : CostTree) (d : Size) {s : Folder} (hs : s.stack ≠ []) : Taken t d s (s.step t d) := by
  unfold step
  split
  · rename_i h; exact absurd h hs
  · rename_i id next acc rest h
    simp only
    split
    · rename_i hc; exact .finish h hc
    · rename_i c hc; exact .descend h hc
    · rename_i f hc
      unfold enterFragment
      simp only
      split
      · rename_i v hv; exact .reuse h hc hv
      · rename_i hv
        split
        · rename_i hf; exact .cycle h hc hf
        · rename_i hf
          split
          · rename_i hb; exact .undefined h hc hb
          · rename_i body hb; exact .enter h hc hv hf hb
  · rename_i f rest h; exact .leave h

/-! ## The invariant -/

/-- The names of the marks, the top first. -/
def marks : List Frame → List String
  | [] => []
  | .node _ _ _ :: rest => marks rest
  | .fragment f :: rest => f :: marks rest

/-- The stack waits for the value of the child. -/
inductive Awaits (t : CostTree) (d : Size) (root : NodeId) : Child → List Frame → Prop
  | root : Awaits t d root (.node root) []
  | child {id i c below rest} : (t.node id).children[i]? = some c →
      List.Forall₂ (t.RefoldsChild (·.complexity d)) ((t.node id).children.take i) below →
      Awaits t d root (.node id) rest → Awaits t d root c (.node id (i + 1) below.sum :: rest)
  | body {f b rest} : t.fragments.get? f = some b → Awaits t d root (.fragment f) rest →
      Awaits t d root (.node b) (.fragment f :: rest)

/-- The value the stack waits for is there, or the frame on top is new. -/
inductive Due (t : CostTree) (d : Size) (root : NodeId) : List Frame → Option Size → Prop
  | fresh {id rest} : Awaits t d root (.node id) rest → Due t d root (.node id 0 0 :: rest) none
  | done {c v stack} : Awaits t d root c stack → t.RefoldsChild (·.complexity d) c v →
      Due t d root stack (some v)

structure Inv (t : CostTree) (d : Size) (root : NodeId) (s : Folder) : Prop where
  due : Due t d root s.stack s.folded
  marked : s.inProgress = (marks s.stack).reverse
  distinct : s.inProgress.Nodup
  named : ∀ f, f ∈ s.inProgressNames ↔ f ∈ s.inProgress
  /-- A fragment in progress has no value yet. -/
  unknown : ∀ f ∈ s.inProgress, s.known.get? f = none
  known : ∀ f v, s.known.get? f = some v → ∃ body, t.fragments.get? f = some body ∧ t.Costs d body v

theorem start_inv (t : CostTree) (d : Size) (root : NodeId) : Inv t d root (start root) where
  due := .fresh .root
  marked := rfl
  distinct := List.nodup_nil
  named _ := Iff.rfl
  unknown _ h := by cases h
  known f v h := by cases h

/-- A node that is taken up again has added up the children before its cursor. -/
theorem due_node {id next : Nat} {acc : Size} {rest : List Frame} {folded : Option Size}
    (h : Due t d root (.node id next acc :: rest) folded) :
    Awaits t d root (.node id) rest ∧ ∃ below,
      List.Forall₂ (t.RefoldsChild (·.complexity d)) ((t.node id).children.take next) below ∧
        acc + folded.getD 0 = below.sum := by
  cases h with
  | fresh h => exact ⟨h, [], .nil, zero_add _⟩
  | @done _ v _ hc hv =>
    cases hc with
    | @child _ i c below _ hi hbelow h =>
      refine ⟨h, below ++ [v], ?_, ?_⟩
      · rw [List.take_add_one, hi]
        exact List.rel_append hbelow (.cons hv .nil)
      · rw [List.sum_append, List.sum_singleton, Option.getD_some]

/-- A mark that is taken up has the value of its body. -/
theorem due_mark {f : String} {rest : List Frame} {folded : Option Size}
    (h : Due t d root (.fragment f :: rest) folded) :
    Awaits t d root (.fragment f) rest ∧ ∃ body v,
      t.fragments.get? f = some body ∧ t.Costs d body v ∧ folded = some v := by
  cases h with
  | done hc hv =>
    cases hc with
    | body hb h => exact ⟨h, _, _, hb, hv, rfl⟩

/-- The stack below a node taken up again waits for the child at the cursor. -/
theorem awaits_next {id next : Nat} {acc : Size} {rest : List Frame} {folded : Option Size}
    (h : Due t d root (.node id next acc :: rest) folded) {c : Child} (hc : (t.node id).children[next]? = some c) :
    Awaits t d root c (.node id (next + 1) (acc + folded.getD 0) :: rest) := by
  obtain ⟨hrest, below, hbelow, hsum⟩ := due_node h
  rw [hsum]
  exact .child hc hbelow hrest

/-- A fragment that is begun waits under the node of its body. -/
theorem enter_inv {s : Folder} (h : Inv t d root s) {id next : Nat} {acc : Size} {rest : List Frame} {f : String}
    {body : NodeId} (hst : s.stack = .node id next acc :: rest)
    (hc : (t.node id).children[next]? = some (.fragment f)) (hunknown : s.known.get? f = none)
    (hf : f ∉ s.inProgressNames) (hb : t.fragments.get? f = some body) :
    Inv t d root { s with
      stack := .node body 0 0 :: .fragment f :: .node id (next + 1) (acc + s.folded.getD 0) :: rest
      folded := none, inProgress := s.inProgress ++ [f], inProgressNames := s.inProgressNames.add f } := by
  have hdue := h.due
  have hmarked := h.marked
  rw [hst] at hdue hmarked
  have hnew : f ∉ s.inProgress := fun hm => hf ((h.named f).mpr hm)
  refine ⟨.fresh (.body hb (awaits_next hdue hc)), ?_, NameSet.nodup_concat h.distinct hnew, fun g => ?_,
    fun g hg => ?_, h.known⟩
  · show s.inProgress ++ [f] = (f :: marks rest).reverse
    rw [hmarked, List.reverse_cons]; rfl
  · rw [NameSet.mem_add, h.named, List.mem_append, List.mem_singleton]
  · rcases List.mem_append.mp hg with hg | hg
    · exact h.unknown g hg
    · rw [List.mem_singleton.mp hg]; exact hunknown

/-- A fragment that is ended leaves its value, and no other value changes. -/
theorem leave_inv {s : Folder} (h : Inv t d root s) {f : String} {rest : List Frame}
    (hst : s.stack = .fragment f :: rest) :
    Inv t d root { s with
      stack := rest, folded := some (s.folded.getD 0), known := s.known.insert f (s.folded.getD 0)
      inProgress := s.inProgress.dropLast, inProgressNames := s.inProgressNames.remove f } := by
  have hdue := h.due
  have hmarked := h.marked
  rw [hst] at hdue hmarked
  obtain ⟨hrest, body, v, hb, hvalue, hfolded⟩ := due_mark hdue
  have hlast : s.inProgress = (marks rest).reverse ++ [f] := by rw [hmarked]; exact List.reverse_cons
  have hdrop : s.inProgress.dropLast = (marks rest).reverse := by rw [hlast, List.dropLast_concat]
  have hdistinct := h.distinct
  rw [hlast, List.nodup_append] at hdistinct
  have hgone : ∀ g ∈ (marks rest).reverse, g ≠ f := fun g hg => hdistinct.2.2 g hg f (List.mem_singleton.mpr rfl)
  refine ⟨?_, hdrop, ?_, fun g => ?_, fun g hg => ?_, fun g w hw => ?_⟩
  · show Due t d root rest (some (s.folded.getD 0))
    rw [hfolded]
    exact .done hrest ((CostTree.refoldsChild_fragment hb).mpr hvalue)
  · show s.inProgress.dropLast.Nodup
    rw [hdrop]; exact hdistinct.1
  · show g ∈ s.inProgressNames.remove f ↔ g ∈ s.inProgress.dropLast
    rw [NameSet.mem_remove, h.named, hdrop, hlast, List.mem_append, List.mem_singleton]
    constructor
    · rintro ⟨hg | hg, hne⟩
      · exact hg
      · exact absurd hg hne
    · exact fun hg => ⟨Or.inl hg, hgone g hg⟩
  · show (s.known.insert f (s.folded.getD 0)).get? g = none
    have hg' : g ∈ (marks rest).reverse := by rw [← hdrop]; exact hg
    rw [Table.get?_insert, if_neg (Ne.symm (hgone g hg'))]
    exact h.unknown g (by rw [hlast]; exact List.mem_append_left _ hg')
  · have hw' : (s.known.insert f (s.folded.getD 0)).get? g = some w := hw
    rw [Table.get?_insert] at hw'
    split at hw'
    · rename_i hfg
      subst hfg
      rw [hfolded, Option.getD_some] at hw'
      cases hw'
      exact ⟨body, hb, hvalue⟩
    · exact h.known g w hw'

theorem step_inv {s s' : Folder} (h : Inv t d root s) (hs : s.stack ≠ []) (hstep : s.step t d = .ok s') :
    Inv t d root s' := by
  have htaken := step_taken t d hs
  have hdue := h.due
  have hmarked := h.marked
  rw [hstep] at htaken
  cases htaken with
  | @finish id next acc rest hst hc =>
    rw [hst] at hdue hmarked
    obtain ⟨hrest, below, hbelow, hsum⟩ := due_node hdue
    rw [List.take_of_length_le (List.getElem?_eq_none_iff.mp hc)] at hbelow
    refine ⟨.done hrest ?_, hmarked, h.distinct, h.named, h.unknown, h.known⟩
    rw [hsum]
    exact CostTree.refolds_iff.mpr ⟨below, hbelow, rfl⟩
  | descend hst hc =>
    rw [hst] at hdue hmarked
    exact ⟨.fresh (awaits_next hdue hc), hmarked, h.distinct, h.named, h.unknown, h.known⟩
  | reuse hst hc hv =>
    rw [hst] at hdue hmarked
    obtain ⟨body, hb, hvalue⟩ := h.known _ _ hv
    exact ⟨.done (awaits_next hdue hc) ((CostTree.refoldsChild_fragment hb).mpr hvalue), hmarked, h.distinct,
      h.named, h.unknown, h.known⟩
  | undefined hst hc hb =>
    rw [hst] at hdue hmarked
    exact ⟨.done (awaits_next hdue hc) ((CostTree.refoldsChild_undefined hb).mpr rfl), hmarked, h.distinct, h.named,
      h.unknown, h.known⟩
  | enter hst hc hv hf hb => exact enter_inv h hst hc hv hf hb
  | leave hst => exact leave_inv h hst

/-! ## Cycles -/

/-- The node lies in the body of the fragment begun last, or below the root when none is. -/
def Within (t : CostTree) (root : NodeId) : List String → NodeId → Prop
  | [], id => t.Attached root id
  | f :: _, id => ∃ body, t.fragments.get? f = some body ∧ t.Attached body id

/-- The name is spread within. -/
def RecordedWithin (t : CostTree) (root : NodeId) (begun : List String) (f : String) : Prop :=
  ∃ id, Within t root begun id ∧ .fragment f ∈ (t.node id).children

/-- Each of the fragments begun is spread within those begun before it. -/
def Nested (t : CostTree) (root : NodeId) : List String → Prop
  | [] => True
  | f :: before => RecordedWithin t root before f ∧ Nested t root before

theorem awaits_within {c : Child} {stack : List Frame} (h : Awaits t d root c stack) :
    Nested t root (marks stack) ∧ (∀ id, c = .node id → Within t root (marks stack) id) ∧
      ∀ f, c = .fragment f → RecordedWithin t root (marks stack) f := by
  induction h with
  | root => exact ⟨trivial, fun id e => by cases e; exact .refl, nofun⟩
  | @child id i c below rest hc _ _ ih =>
    obtain ⟨hnested, hwithin, _⟩ := ih
    have hid : Within t root (marks rest) id := hwithin id rfl
    have hmem : c ∈ (t.node id).children := List.mem_of_getElem? hc
    refine ⟨hnested, ?_, ?_⟩
    · rintro n rfl
      show Within t root (marks rest) n
      cases hm : marks rest with
      | nil => rw [hm] at hid; exact .tail hid hmem
      | cons f before =>
        rw [hm] at hid
        obtain ⟨body, hb, hid⟩ := hid
        exact ⟨body, hb, .tail hid hmem⟩
    · rintro f rfl
      exact ⟨id, hid, hmem⟩
  | @body f b rest hb _ ih =>
    obtain ⟨hnested, _, hrecorded⟩ := ih
    exact ⟨⟨hrecorded f rfl, hnested⟩, fun id e => by cases e; exact ⟨b, hb, .refl⟩, nofun⟩

theorem spreads_of_recordedWithin {f g : String} {before : List String}
    (h : RecordedWithin t root (f :: before) g) : t.Spreads f g := by
  obtain ⟨id, ⟨body, hb, hid⟩, hg⟩ := h
  exact ⟨body, hb, id, hid, hg⟩

theorem nested_chain {begun : List String} (h : Nested t root begun) :
    begun.IsChain fun g f => t.Spreads f g := by
  induction begun with
  | nil => exact .nil
  | cons g before ih =>
    cases before with
    | nil => exact .singleton g
    | cons f before => exact .cons_cons (spreads_of_recordedWithin h.1) (ih h.2)

theorem nested_reached {begun : List String} (h : Nested t root begun) : ∀ f ∈ begun, t.Reached root f := by
  induction begun with
  | nil => intro f hf; cases hf
  | cons g before ih =>
    intro f hf
    rcases List.mem_cons.mp hf with rfl | hf
    · cases before with
      | nil => exact ⟨f, h.1, .refl⟩
      | cons e before =>
        obtain ⟨a, ha, hae⟩ := ih h.2 e (List.mem_cons_self ..)
        exact ⟨a, ha, .tail hae (spreads_of_recordedWithin h.1)⟩
    · exact ih h.2 f hf

/-- A fragment that is spread again while it is begun closes a cycle, and the fragments
    begun since are the rest of it. -/
theorem isCycle_of_nested {begun : List String} {f : String} (h : Nested t root begun) (hdistinct : begun.Nodup)
    (hf : f ∈ begun) (hagain : RecordedWithin t root begun f) :
    t.IsCycle root (begun.reverse.dropWhile (· ≠ f) ++ [f]) := by
  obtain ⟨since, before, rfl⟩ := List.append_of_mem hf
  -- the last begun comes first in `begun`: `since` was begun after `f`, `before` before it
  have hpath : (since ++ f :: before).reverse.dropWhile (· ≠ f) = (since ++ [f]).reverse := by
    have hnot : ∀ g ∈ before.reverse, (decide (g ≠ f)) = true := by
      intro g hg
      have hb := (List.nodup_cons.mp (List.nodup_append.mp hdistinct).2.1).1
      exact decide_eq_true fun e => hb (e ▸ List.mem_reverse.mp hg)
    rw [List.reverse_append, List.reverse_cons, List.append_assoc, List.dropWhile_append_of_pos hnot]
    simp
  have hchain : (f :: (since ++ [f])).IsChain fun g f => t.Spreads f g := by
    have hnested : Nested t root (f :: (since ++ f :: before)) := ⟨hagain, h⟩
    have hsplit : f :: (since ++ f :: before) = (f :: (since ++ [f])) ++ before := by simp
    rw [hsplit] at hnested
    exact (nested_chain hnested).left_of_append
  rw [hpath]
  refine ⟨by simp, by rw [List.getLast?_concat]; simp, ?_, ?_, ?_⟩
  · rw [List.dropLast_concat, List.nodup_reverse]
    exact hdistinct.sublist (by simp)
  · rw [← List.reverse_cons, List.isChain_reverse]
    exact hchain
  · intro g hg
    have e : g = f := by simpa using hg.symm
    exact nested_reached h g (by rw [e]; simp)

theorem step_cycle {s : Folder} {names : List String} (h : Inv t d root s) (hs : s.stack ≠ [])
    (hstep : s.step t d = .error names) : t.IsCycle root names := by
  have htaken := step_taken t d hs
  rw [hstep] at htaken
  cases htaken with
  | @cycle id next acc rest f hst hc hf =>
    have hdue := h.due
    have hmarked := h.marked
    rw [hst] at hdue hmarked
    obtain ⟨hnested, _, hrecorded⟩ := awaits_within (awaits_next hdue hc)
    have hbegun : s.inProgress = (marks rest).reverse := hmarked
    have hdistinct := h.distinct
    have hmem := (h.named f).mp hf
    rw [hbegun] at hdistinct hmem ⊢
    exact isCycle_of_nested hnested (List.nodup_reverse.mp hdistinct) (List.mem_reverse.mp hmem) (hrecorded f rfl)

/-! ## Runs -/

theorem value_of_done {s : Folder} (h : Inv t d root s) (hs : s.stack = []) :
    t.Costs d root (s.folded.getD 0) := by
  have hdue := h.due
  rw [hs] at hdue
  generalize s.folded = folded at hdue ⊢
  cases hdue with
  | done hc hv =>
    cases hc with
    | root => exact hv

/-- What a run may come to. -/
def Sound (t : CostTree) (d : Size) (root : NodeId) : FoldResult → Prop
  | .total v => t.Costs d root v
  | .cycle names => t.IsCycle root names
  | .unfinished => True

theorem run_sound (n : Nat) {s : Folder} (h : Inv t d root s) : Sound t d root (run t d n s).1 := by
  induction n generalizing s with
  | zero =>
    unfold run
    split
    · rename_i he; exact value_of_done h (List.isEmpty_iff.mp he)
    · trivial
  | succ n ih =>
    unfold run
    split
    · rename_i he; exact value_of_done h (List.isEmpty_iff.mp he)
    · rename_i he
      have hs : s.stack ≠ [] := fun e => he (List.isEmpty_iff.mpr e)
      simp only
      split
      · rename_i s' hstep; exact ih (step_inv h hs hstep)
      · rename_i names hstep; exact step_cycle h hs hstep

end Folder

end QueryCost
