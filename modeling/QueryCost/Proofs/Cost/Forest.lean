/-
  QueryCost.Proofs.Cost.Forest — every node hangs in one place.

  In the trees that are built every node is attached to one node, once, but for the root
  and the nodes of the fragments, which are attached nowhere: the numbers of the nodes that
  are attached, with those of the root and the fragments, are the numbers of all nodes, each
  once (`Covered`). A new node is attached as soon as it is there, or is a fragment's, so
  every step of grafting keeps this.

  A `Forest` asks for less, and of any tree: no node is attached twice, and the root and
  the nodes of the fragments are distinct and not attached at all.

  - `Covered.forest`: grounded and covered, a tree is a forest.
  - `grafts_covered`, `grafts_named`: the steps of grafting keep a tree covered, and add no
    names but those of the outlines.
  - `foldl_plant_keeps`: what grafting keeps is kept when the bodies of fragments are added,
    and the fragments come in the order of the bodies.
-/

import QueryCost.Proofs.Cost.Outline
import Mathlib.Data.List.Perm.Subperm

namespace QueryCost

/-- The node that is the child, where it is one. -/
def Child.node? : Child → Option NodeId
  | .node id => some id
  | .fragment _ => none

namespace CostTree

/-- The nodes that are children, as often as they are. -/
def attached (t : CostTree) : List NodeId := t.nodes.toList.flatMap fun n => n.children.filterMap Child.node?

/-- How many children there are. -/
def references (t : CostTree) : Nat := (t.nodes.toList.map (·.children.length)).sum

/-- No node is attached twice. The root and the nodes of the fragments are distinct, and are
    not attached. -/
structure Forest (t : CostTree) (root : NodeId) : Prop extends t.Grounded root where
  once : (t.attached ++ root :: t.fragments.values).Nodup

instance (t : CostTree) (root : NodeId) : Decidable (t.Forest root) :=
  decidable_of_iff (t.Grounded root ∧ (t.attached ++ root :: t.fragments.values).Nodup)
    ⟨fun ⟨hgrounded, honce⟩ => ⟨hgrounded, honce⟩, fun h => ⟨h.toGrounded, h.once⟩⟩

variable {t : CostTree} {root parent : NodeId} {names : String → Prop}

/-! ## What is attached -/

/-- The nodes in the order of their numbers. -/
theorem nodes_toList (t : CostTree) : t.nodes.toList = (List.range t.nodes.size).map t.node := by
  apply List.ext_getElem
  · simp
  · intro id hid _
    have hid' : id < t.nodes.size := by simpa using hid
    simp [node, hid']

theorem mem_attached {id : NodeId} : id ∈ t.attached ↔ ∃ p, .node id ∈ (t.node p).children := by
  simp only [attached, nodes_toList, List.flatMap_map, List.mem_flatMap, List.mem_range, List.mem_filterMap]
  constructor
  · rintro ⟨p, -, child, hchild, hid⟩
    cases child with
    | node c =>
      cases hid
      exact ⟨p, hchild⟩
    | fragment f => cases hid
  · rintro ⟨p, hchild⟩
    refine ⟨p, ?_, _, hchild, rfl⟩
    by_contra hp
    rw [node_of_le (Nat.le_of_not_lt hp)] at hchild
    cases hchild

theorem flatMap_modify_perm {α β : Type} {g : α → List β} {change : α → α} {added : List β}
    (hchange : ∀ a, g (change a) = g a ++ added) (l : List α) {i : Nat} (hi : i < l.length) :
    ((l.modify i change).flatMap g).Perm (added ++ l.flatMap g) := by
  induction l generalizing i with
  | nil => cases hi
  | cons a rest ih =>
    cases i with
    | zero =>
      rw [List.modify_zero_cons, List.flatMap_cons, List.flatMap_cons, hchange, List.append_assoc]
      exact List.perm_append_comm_assoc _ _ _
    | succ i =>
      rw [List.modify_succ_cons, List.flatMap_cons, List.flatMap_cons]
      have hrest := ih (Nat.lt_of_succ_lt_succ hi)
      exact (hrest.append_left (g a)).trans (List.perm_append_comm_assoc _ _ _)

theorem attached_push {n : CostNode} (hn : n.children = []) : (t.push n).attached = t.attached := by
  simp [attached, push, hn]

/-- Where a node is attached, there is one more. -/
theorem attached_attach (hp : parent < t.nextId) (child : Child) :
    (t.attach parent child).attached.Perm (child.node?.toList ++ t.attached) := by
  unfold attached attach
  rw [Array.toList_modify]
  have hp' : parent < t.nodes.toList.length := by rw [Array.length_toList]; exact hp
  refine flatMap_modify_perm (fun n => ?_) _ hp'
  cases child <;> simp [Child.node?]

/-! ## Covered trees -/

/-- Every node is attached, or is the root or that of a fragment, and nothing of it twice. -/
def Covered (t : CostTree) (root : NodeId) : Prop :=
  (t.attached ++ root :: t.fragments.values).Perm (List.range t.nextId)

theorem Covered.forest (h : t.Covered root) (hgrounded : t.Grounded root) : t.Forest root :=
  ⟨hgrounded, h.nodup_iff.mpr List.nodup_range⟩

/-- How often a node is attached. -/
theorem Covered.count_attached (h : t.Covered root) {id : NodeId} (hid : id < t.nodes.size) :
    t.attached.count id = if id = root ∨ id ∈ t.fragments.values then 0 else 1 := by
  have hcount := h.count_eq id
  have hone : (List.range t.nextId).count id = 1 := List.count_eq_one_of_mem List.nodup_range (List.mem_range.mpr hid)
  rw [List.count_append, hone] at hcount
  split
  · rename_i hmem
    have hpos : 0 < (root :: t.fragments.values).count id := List.count_pos_iff.mpr (List.mem_cons.mpr hmem)
    omega
  · rename_i hnot
    have hzero : (root :: t.fragments.values).count id = 0 :=
      List.count_eq_zero.mpr fun hmem => hnot (List.mem_cons.mp hmem)
    omega

theorem grafts_covered (root : NodeId) : Grafts names (·.Covered root) where
  spread := by
    intro t parent f hp _ h
    unfold Covered
    rw [fragments_attach, nextId_attach]
    exact ((attached_attach hp (.fragment f)).append_right _).trans h
  field := by
    intro t parent n hp hn h
    have hp' : parent < (t.push n).nextId := by rw [nextId_push]; exact Nat.lt_succ_of_lt hp
    have hattached := attached_attach hp' (.node t.nextId)
    unfold Covered at h ⊢
    rw [attached_push hn] at hattached
    rw [fragments_attach, fragments_push, nextId_attach, nextId_push, List.range_succ]
    -- the number that is new comes last
    have hnew := (hattached.append_right (root :: t.fragments.values)).trans (h.cons t.nextId)
    exact hnew.trans (List.perm_append_singleton t.nextId _).symm

/-- A fragment's node is attached nowhere. -/
theorem covered_register {f : String} (hf : f ∉ t.fragments.keys) (h : t.Covered root) :
    ((t.push .container).register f t.nextId).Covered root := by
  have hvalues : (t.fragments.insertNew f t.nextId).values = t.fragments.values ++ [t.nextId] := by
    rw [Table.values, Table.entries_insertNew hf, List.map_append]
    rfl
  show ((t.push .container).attached ++ root :: (t.fragments.insertNew f t.nextId).values).Perm
    (List.range (t.push .container).nextId)
  rw [attached_push rfl, hvalues, nextId_push, List.range_succ, ← List.cons_append, ← List.append_assoc]
  exact h.append_right [t.nextId]

/-! ## Spreads -/

/-- All spreads are of these names. -/
def Named (names : String → Prop) (t : CostTree) : Prop := ∀ p f, .fragment f ∈ (t.node p).children → names f

theorem named_push {n : CostNode} (hn : n.children = []) (h : t.Named names) : (t.push n).Named names := by
  intro p f hf
  by_cases hp : p = t.nextId
  · rw [hp, node_push_new, hn] at hf
    cases hf
  · rw [node_push_of_ne t n hp] at hf
    exact h p f hf

theorem named_attach (hp : parent < t.nextId) {child : Child} (hchild : ∀ f, child = .fragment f → names f)
    (h : t.Named names) : (t.attach parent child).Named names := by
  intro p f hf
  by_cases he : p = parent
  · subst he
    rw [node_attach_self t hp] at hf
    rcases List.mem_append.mp hf with hf | hf
    · exact h p f hf
    · exact hchild f (List.mem_singleton.mp hf).symm
  · rw [node_attach_of_ne t he] at hf
    exact h p f hf

theorem grafts_named (names : String → Prop) : Grafts names (Named names) where
  spread hp hf h := named_attach hp (fun _ e => Child.fragment.inj e ▸ hf) h
  field := by
    intro t parent n hp hn h
    have hp' : parent < (t.push n).nextId := by rw [nextId_push]; exact Nat.lt_succ_of_lt hp
    exact named_attach hp' nofun (named_push hn h)

/-! ## Trees put together -/

theorem keys_plant {entry : String × List Outline} (hf : entry.1 ∉ t.fragments.keys) :
    (t.plant entry).fragments.keys = t.fragments.keys ++ [entry.1] := by
  rw [(plant_spec t entry).fragments, Table.keys, Table.entries_insertNew hf, List.map_append]
  rfl

/-- The bodies of fragments that are new are planted one after the other, and what grafting
    and the fragment's node keep holds in the end. -/
theorem foldl_plant_keeps {P : CostTree → Prop} (hgrafts : Grafts names P)
    (hregister : ∀ {t : CostTree} {f : String}, f ∉ t.fragments.keys → P t →
      P ((t.push .container).register f t.nextId))
    (bodies : List (String × List Outline)) {t : CostTree}
    (hnames : ∀ entry ∈ bodies, ∀ f ∈ Outline.spreadsAll entry.2, names f)
    (hdistinct : (t.fragments.keys ++ bodies.map Prod.fst).Nodup) (h : P t) :
    P (bodies.foldl plant t) ∧ (bodies.foldl plant t).fragments.keys = t.fragments.keys ++ bodies.map Prod.fst := by
  induction bodies generalizing t with
  | nil => exact ⟨h, (List.append_nil _).symm⟩
  | cons entry rest ih =>
    rw [List.map_cons, List.append_cons] at hdistinct
    have hf : entry.1 ∉ t.fragments.keys := by
      have hfirst := (List.nodup_append.mp (List.nodup_append.mp hdistinct).1).2.2
      exact fun hmem => hfirst _ hmem _ (List.mem_singleton.mpr rfl) rfl
    have hkeys := keys_plant hf
    have hnew : t.nextId < ((t.push .container).register entry.1 t.nextId).nextId := by
      rw [nextId_register, nextId_push]
      exact Nat.lt_succ_self _
    have hplanted : P (t.plant entry) :=
      hgrafts.graftAll t.nextId entry.2 (hnames entry (List.mem_cons_self ..)) hnew (hregister hf h)
    obtain ⟨hall, hall'⟩ := ih (fun e he => hnames e (List.mem_cons_of_mem _ he)) (by rw [hkeys]; exact hdistinct) hplanted
    refine ⟨hall, ?_⟩
    rw [List.foldl_cons, hall', hkeys, List.append_assoc, List.map_cons]
    rfl

end CostTree

end QueryCost
