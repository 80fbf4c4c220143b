/-
  QueryCost.Proofs.Cost.Outline — trees put together from outlines.

  An `Outline` is what a selection counts for, before its nodes have numbers: a field with
  the outlines below it, or a spread. Grafting gives numbers: a field's node comes right
  before all that is below it, and every node is attached as soon as it is there. The body
  of a fragment is grafted to a node of its own (`plant`).

  - `graftAll_spec`: grafting to a node appends children that stand for the outlines
    (`Grown`), made of new nodes, and leaves every other node as it is.
  - `plant_spec`, `foldl_plant_spec`: the same for the body of one fragment and of all.
  - `Grafts.graftAll`: what its steps keep, grafting keeps; so references stay grounded
    (`grounded_graftAll`, `grounded_foldl_plant`).
-/

import QueryCost.Proofs.Cost.FoldSteps

namespace QueryCost

inductive Outline where
  | field (cost : Option DeclaredCost) (landing : Size) (sizes : List Size) (below : List Outline)
  | spread (fragment : String)

namespace CostTree

/-! ## Grafting -/

mutual

/-- Adds the outline at the end of a node's children. -/
def graft (parent : NodeId) : Outline → CostTree → CostTree
  | .field cost landing sizes below, t =>
    graftAll t.nextId below ((t.push ⟨.field cost, landing, sizes, []⟩).attach parent (.node t.nextId))
  | .spread f, t => t.attach parent (.fragment f)

def graftAll (parent : NodeId) : List Outline → CostTree → CostTree
  | [], t => t
  | o :: rest, t => graftAll parent rest (graft parent o t)

end

/-- Adds the body of a fragment. -/
def plant (t : CostTree) (entry : String × List Outline) : CostTree :=
  graftAll t.nextId entry.2 ((t.push .container).register entry.1 t.nextId)

/-- A document's node with the outlines below it. -/
def rooted (parts : List Outline) : CostTree := graftAll 0 parts (empty.push .container)

end CostTree

mutual

/-- The names an outline spreads. -/
def Outline.spreads : Outline → List String
  | .field _ _ _ below => spreadsAll below
  | .spread f => [f]

def Outline.spreadsAll : List Outline → List String
  | [] => []
  | o :: rest => o.spreads ++ spreadsAll rest

end

namespace CostTree

theorem graftAll_append (parent : NodeId) (os os' : List Outline) (t : CostTree) :
    graftAll parent (os ++ os') t = graftAll parent os' (graftAll parent os t) := by
  induction os generalizing t with
  | nil => rfl
  | cons o rest ih => exact ih _

/-! ## What grows -/

mutual

/-- The child stands for the outline, and its nodes are numbered from `lo` on. -/
inductive Grown (t : CostTree) (lo : Nat) : Outline → Child → Prop
  | field {id : Nat} {cost landing sizes below children} : lo ≤ id → id < t.nextId →
      t.node id = ⟨.field cost, landing, sizes, children⟩ → GrownAll t lo below children →
      Grown t lo (.field cost landing sizes below) (.node id)
  | spread {f} : Grown t lo (.spread f) (.fragment f)

inductive GrownAll (t : CostTree) (lo : Nat) : List Outline → List Child → Prop
  | nil : GrownAll t lo [] []
  | cons {o rest c cs} : Grown t lo o c → GrownAll t lo rest cs → GrownAll t lo (o :: rest) (c :: cs)

end

variable {t t' : CostTree} {lo lo' parent root : Nat}

mutual

/-- What has grown stays, as long as its nodes do. -/
theorem grown_mono (hlo : lo' ≤ lo) (hsize : t.nextId ≤ t'.nextId)
    (hkeep : ∀ id : Nat, lo ≤ id → id < t.nextId → t'.node id = t.node id) {o : Outline} {c : Child}
    (h : Grown t lo o c) : Grown t' lo' o c := by
  cases h with
  | field hid hlt hnode hbelow =>
    exact .field (Nat.le_trans hlo hid) (Nat.lt_of_lt_of_le hlt hsize) ((hkeep _ hid hlt).trans hnode)
      (grownAll_mono hlo hsize hkeep hbelow)
  | spread => exact .spread

theorem grownAll_mono (hlo : lo' ≤ lo) (hsize : t.nextId ≤ t'.nextId)
    (hkeep : ∀ id : Nat, lo ≤ id → id < t.nextId → t'.node id = t.node id) {os : List Outline} {cs : List Child}
    (h : GrownAll t lo os cs) : GrownAll t' lo' os cs := by
  cases h with
  | nil => exact .nil
  | cons ho hrest => exact .cons (grown_mono hlo hsize hkeep ho) (grownAll_mono hlo hsize hkeep hrest)

end

theorem grownAll_append {os os' : List Outline} {cs : List Child} :
    GrownAll t lo (os ++ os') cs ↔ ∃ as bs, cs = as ++ bs ∧ GrownAll t lo os as ∧ GrownAll t lo os' bs := by
  induction os generalizing cs with
  | nil =>
    constructor
    · exact fun h => ⟨[], cs, rfl, .nil, h⟩
    · rintro ⟨as, bs, rfl, ha, hb⟩
      cases ha
      exact hb
  | cons o rest ih =>
    constructor
    · intro h
      cases h with
      | cons ho hrest =>
        obtain ⟨as, bs, rfl, ha, hb⟩ := ih.mp hrest
        exact ⟨_ :: as, bs, rfl, .cons ho ha, hb⟩
    · rintro ⟨as, bs, rfl, ha, hb⟩
      cases ha with
      | cons ho ha => exact .cons ho (ih.mpr ⟨_, bs, rfl, ha, hb⟩)

/-! ## What grafting does -/

/-- The second tree has the outlines at the end of the node's children, and is the first
    otherwise. -/
structure Grafted (parent : Nat) (os : List Outline) (t t' : CostTree) : Prop where
  size : t.nextId ≤ t'.nextId
  fragments : t'.fragments = t.fragments
  others : ∀ id : Nat, id < t.nextId → id ≠ parent → t'.node id = t.node id
  here : ∃ cs, t'.node parent = { t.node parent with children := (t.node parent).children ++ cs } ∧
    GrownAll t' t.nextId os cs

theorem Grafted.nil (parent : Nat) (t : CostTree) : Grafted parent [] t t :=
  ⟨Nat.le_refl _, rfl, fun _ _ _ => rfl, [], by simp, .nil⟩

theorem Grafted.cons {o : Outline} {os : List Outline} {t'' : CostTree} (hp : parent < t.nextId)
    (h : Grafted parent [o] t t') (h' : Grafted parent os t' t'') : Grafted parent (o :: os) t t'' := by
  obtain ⟨cs, hnode, hcs⟩ := h.here
  obtain ⟨cs', hnode', hcs'⟩ := h'.here
  have hgrown : GrownAll t'' t.nextId [o] cs := by
    refine grownAll_mono (Nat.le_refl _) h'.size (fun id hid hlt => h'.others id hlt ?_) hcs
    exact Nat.ne_of_gt (Nat.lt_of_lt_of_le hp hid)
  have hgrown' : GrownAll t'' t.nextId os cs' :=
    grownAll_mono h.size (Nat.le_refl _) (fun _ _ _ => rfl) hcs'
  refine ⟨Nat.le_trans h.size h'.size, h'.fragments.trans h.fragments, fun id hlt hne => ?_, cs ++ cs', ?_, ?_⟩
  · rw [h'.others id (Nat.lt_of_lt_of_le hlt h.size) hne, h.others id hlt hne]
  · rw [hnode', hnode, List.append_assoc]
  · show GrownAll t'' t.nextId ([o] ++ os) (cs ++ cs')
    exact grownAll_append.mpr ⟨cs, cs', rfl, hgrown, hgrown'⟩

mutual

theorem graft_spec (parent : Nat) (o : Outline) {t : CostTree} (hp : parent < t.nextId) :
    Grafted parent [o] t (graft parent o t) := by
  cases o with
  | spread f =>
    refine ⟨?_, ?_, fun id _ hne => ?_, [.fragment f], ?_, .cons .spread .nil⟩
    · simp [graft]
    · simp [graft]
    · exact node_attach_of_ne t hne _
    · exact node_attach_self t hp _
  | field cost landing sizes below =>
    have hne : parent ≠ t.nextId := Nat.ne_of_lt hp
    let new : CostNode := ⟨.field cost, landing, sizes, []⟩
    let t₁ := (t.push new).attach parent (.node t.nextId)
    have hsize : t₁.nextId = t.nextId + 1 := by simp [t₁]
    have hlt : t.nextId < t₁.nextId := hsize ▸ Nat.lt_succ_self _
    have hnew : t₁.node t.nextId = new := by
      simp only [t₁, node_attach_of_ne _ (Ne.symm hne), node_push_new]
    have hparent : t₁.node parent =
        { t.node parent with children := (t.node parent).children ++ [.node t.nextId] } := by
      have hp' : parent < (t.push new).nextId := by rw [nextId_push]; exact Nat.lt_succ_of_lt hp
      simp only [t₁, node_attach_self _ hp', node_push_of_ne t new hne]
    have hbelow := graftAll_spec t.nextId below hlt
    obtain ⟨cs, hnode, hcs⟩ := hbelow.here
    have hlt' : t.nextId < (graftAll t.nextId below t₁).nextId := Nat.lt_of_lt_of_le hlt hbelow.size
    have hold : ∀ id : Nat, id < t.nextId → (graftAll t.nextId below t₁).node id = t₁.node id :=
      fun id hid => hbelow.others id (Nat.lt_trans hid hlt) (Nat.ne_of_lt hid)
    rw [graft]
    -- the parent is no node below the new one, so what is grafted there does not change it
    refine ⟨Nat.le_of_lt hlt', hbelow.fragments, fun id hid hidp => ?_, [.node t.nextId], ?_, ?_⟩
    · rw [hold id hid]
      simp only [t₁, node_attach_of_ne _ hidp, node_push_of_ne t new (Nat.ne_of_lt hid)]
    · rw [hold parent hp, hparent]
    · have hfield : (graftAll t.nextId below t₁).node t.nextId = ⟨.field cost, landing, sizes, cs⟩ := by
        rw [hnode, hnew]; rfl
      have hgrown : GrownAll (graftAll t.nextId below t₁) t.nextId below cs :=
        grownAll_mono (Nat.le_of_lt hlt) (Nat.le_refl _) (fun _ _ _ => rfl) hcs
      exact .cons (.field (Nat.le_refl _) hlt' hfield hgrown) .nil

theorem graftAll_spec (parent : Nat) (os : List Outline) {t : CostTree} (hp : parent < t.nextId) :
    Grafted parent os t (graftAll parent os t) := by
  cases os with
  | nil => exact .nil parent t
  | cons o rest =>
    have ho := graft_spec parent o hp
    exact ho.cons hp (graftAll_spec parent rest (Nat.lt_of_lt_of_le hp ho.size))

end

/-! ## What grafting keeps -/

/-- The steps of grafting keep a property, spreads being of these names: a node is opened
    below one there is, or a spread is added to it. -/
structure Grafts (names : String → Prop) (P : CostTree → Prop) : Prop where
  field {t : CostTree} {parent : NodeId} {n : CostNode} : parent < t.nextId → n.children = [] → P t →
    P ((t.push n).attach parent (.node t.nextId))
  spread {t : CostTree} {parent : NodeId} {f : String} : parent < t.nextId → names f → P t →
    P (t.attach parent (.fragment f))

mutual

theorem Grafts.graft {names : String → Prop} {P : CostTree → Prop} (h : Grafts names P) (parent : NodeId)
    (o : Outline) (hnames : ∀ f ∈ o.spreads, names f) {t : CostTree} (hp : parent < t.nextId) (ht : P t) :
    P (CostTree.graft parent o t) := by
  cases o with
  | spread f => exact h.spread hp (hnames f (List.mem_singleton.mpr rfl)) ht
  | field cost landing sizes below =>
    have hnew : t.nextId < ((t.push ⟨.field cost, landing, sizes, []⟩).attach parent (.node t.nextId)).nextId := by
      rw [nextId_attach, nextId_push]
      exact Nat.lt_succ_self _
    rw [CostTree.graft]
    exact h.graftAll t.nextId below hnames hnew (h.field hp rfl ht)

theorem Grafts.graftAll {names : String → Prop} {P : CostTree → Prop} (h : Grafts names P) (parent : NodeId)
    (os : List Outline) (hnames : ∀ f ∈ Outline.spreadsAll os, names f) {t : CostTree} (hp : parent < t.nextId)
    (ht : P t) : P (CostTree.graftAll parent os t) := by
  cases os with
  | nil => exact ht
  | cons o rest =>
    have ho := h.graft parent o (fun f hf => hnames f (List.mem_append_left _ hf)) hp ht
    have hp' := Nat.lt_of_lt_of_le hp (graft_spec parent o hp).size
    exact h.graftAll parent rest (fun f hf => hnames f (List.mem_append_right _ hf)) hp' ho

end

theorem rooted_spec (parts : List Outline) :
    0 < (rooted parts).nextId ∧ (rooted parts).fragments = ∅ ∧
      ∃ cs, (rooted parts).node 0 = ⟨.container, 0, [], cs⟩ ∧ GrownAll (rooted parts) 1 parts cs := by
  have hspec := graftAll_spec 0 parts (t := empty.push .container) (Nat.lt_succ_self 0)
  exact ⟨Nat.lt_of_lt_of_le (Nat.lt_succ_self 0) hspec.size, hspec.fragments, hspec.here⟩

/-! ## The bodies of fragments -/

/-- The tree has a body for the fragment, with these outlines. -/
def HoldsBody (t : CostTree) (f : String) (below : List Outline) : Prop :=
  ∃ (body lo : Nat) (cs : List Child), t.fragments.get? f = some body ∧ body < t.nextId ∧
    t.node body = ⟨.container, 0, [], cs⟩ ∧ GrownAll t lo below cs

/-- The second tree has the body at a new node, and is the first otherwise. -/
structure Planted (f : String) (below : List Outline) (t t' : CostTree) : Prop where
  size : t.nextId < t'.nextId
  fragments : t'.fragments = t.fragments.insertNew f t.nextId
  others : ∀ id : Nat, id < t.nextId → t'.node id = t.node id
  here : ∃ cs, t'.node t.nextId = ⟨.container, 0, [], cs⟩ ∧ GrownAll t' (t.nextId + 1) below cs

theorem plant_spec (t : CostTree) (entry : String × List Outline) : Planted entry.1 entry.2 t (t.plant entry) := by
  obtain ⟨f, below⟩ := entry
  let t₁ := (t.push .container).register f t.nextId
  have hsize : t₁.nextId = t.nextId + 1 := by simp [t₁]
  have hlt : t.nextId < t₁.nextId := hsize ▸ Nat.lt_succ_self _
  have hbelow := graftAll_spec t.nextId below hlt
  obtain ⟨cs, hnode, hcs⟩ := hbelow.here
  have hnew : t₁.node t.nextId = .container := by simp only [t₁, node_register, node_push_new]
  refine ⟨Nat.lt_of_lt_of_le hlt hbelow.size, hbelow.fragments, fun id hid => ?_, cs, ?_, hsize ▸ hcs⟩
  · have hne : id ≠ t.nextId := Nat.ne_of_lt hid
    have hold : t₁.node id = t.node id := by simp only [t₁, node_register, node_push_of_ne t _ hne]
    exact (hbelow.others id (Nat.lt_trans hid hlt) hne).trans hold
  · rw [hnew] at hnode
    exact hnode

theorem holdsBody_plant {f : String} {below : List Outline} (h : t.HoldsBody f below) (entry : String × List Outline) :
    (t.plant entry).HoldsBody f below := by
  obtain ⟨body, lo, cs, hf, hlt, hnode, hcs⟩ := h
  have hplant := plant_spec t entry
  refine ⟨body, lo, cs, ?_, Nat.lt_trans hlt hplant.size, (hplant.others body hlt).trans hnode, ?_⟩
  · rw [hplant.fragments, Table.get?_insertNew, hf]
    rfl
  · exact grownAll_mono (Nat.le_refl _) (Nat.le_of_lt hplant.size) (fun id _ hid => hplant.others id hid) hcs

theorem holdsBody_foldl_plant {f : String} {below : List Outline} (h : t.HoldsBody f below)
    (bodies : List (String × List Outline)) : (bodies.foldl plant t).HoldsBody f below := by
  induction bodies generalizing t with
  | nil => exact h
  | cons entry rest ih => exact ih (holdsBody_plant h entry)

theorem foldl_plant_old (bodies : List (String × List Outline)) (t : CostTree) :
    t.nextId ≤ (bodies.foldl plant t).nextId ∧
      ∀ id : Nat, id < t.nextId → (bodies.foldl plant t).node id = t.node id := by
  induction bodies generalizing t with
  | nil => exact ⟨Nat.le_refl _, fun _ _ => rfl⟩
  | cons entry rest ih =>
    have hplant := plant_spec t entry
    obtain ⟨hsize, hothers⟩ := ih (t.plant entry)
    refine ⟨Nat.le_trans (Nat.le_of_lt hplant.size) hsize, fun id hid => ?_⟩
    exact (hothers id (Nat.lt_trans hid hplant.size)).trans (hplant.others id hid)

theorem foldl_plant_undefined (bodies : List (String × List Outline)) {t : CostTree} {f : String}
    (hf : f ∉ bodies.map Prod.fst) : (bodies.foldl plant t).fragments.get? f = t.fragments.get? f := by
  induction bodies generalizing t with
  | nil => rfl
  | cons entry rest ih =>
    simp only [List.map_cons, List.mem_cons, not_or] at hf
    have hplant : (t.plant entry).fragments.get? f = t.fragments.get? f := by
      rw [(plant_spec t entry).fragments, Table.get?_insertNew, if_neg (Ne.symm hf.1), Option.or_none]
    exact (ih hf.2).trans hplant

/-- Bodies under distinct names are all held. -/
theorem foldl_plant_spec (bodies : List (String × List Outline)) {t : CostTree}
    (hdistinct : (bodies.map Prod.fst).Nodup) (hnew : ∀ f ∈ bodies.map Prod.fst, t.fragments.get? f = none) :
    ∀ entry ∈ bodies, (bodies.foldl plant t).HoldsBody entry.1 entry.2 := by
  induction bodies generalizing t with
  | nil => nofun
  | cons entry rest ih =>
    obtain ⟨f, below⟩ := entry
    obtain ⟨hf, hrest⟩ := List.nodup_cons.mp hdistinct
    have hplant := plant_spec t (f, below)
    obtain ⟨cs, hnode, hcs⟩ := hplant.here
    intro e he
    rcases List.mem_cons.mp he with rfl | he
    · refine holdsBody_foldl_plant ⟨t.nextId, _, cs, ?_, hplant.size, hnode, hcs⟩ rest
      rw [hplant.fragments, Table.get?_insertNew, hnew f (List.mem_cons_self ..), if_pos rfl]
      rfl
    · refine ih hrest (fun g hg => ?_) e he
      have hne : f ≠ g := by rintro rfl; exact hf hg
      rw [hplant.fragments, Table.get?_insertNew, hnew g (List.mem_cons_of_mem _ hg), if_neg hne]
      rfl

/-! ## References -/

theorem grounded_push (h : t.Grounded root) {n : CostNode} (hn : n.children = []) : (t.push n).Grounded root := by
  have hsize : (t.push n).nodes.size = t.nodes.size + 1 := nextId_push t n
  refine ⟨hsize ▸ Nat.lt_succ_of_lt h.root_lt, fun p c hc => ?_, fun f body hf => ?_⟩
  · by_cases hp : p = t.nextId
    · rw [hp, node_push_new, hn] at hc
      cases hc
    · rw [node_push_of_ne t n hp] at hc
      exact ⟨(h.child_lt p c hc).1, hsize ▸ Nat.lt_succ_of_lt (h.child_lt p c hc).2⟩
  · exact hsize ▸ Nat.lt_succ_of_lt (h.fragment_lt f body hf)

theorem grounded_attach (h : t.Grounded root) (hp : parent < t.nextId) {child : Child}
    (hchild : ∀ c, child = .node c → parent < c ∧ c < t.nextId) : (t.attach parent child).Grounded root := by
  have hsize : (t.attach parent child).nodes.size = t.nodes.size := nextId_attach t parent child
  refine ⟨hsize ▸ h.root_lt, fun p c hc => ?_, fun f body hf => hsize ▸ h.fragment_lt f body hf⟩
  rw [hsize]
  by_cases he : p = parent
  · subst he
    rw [node_attach_self t hp] at hc
    rcases List.mem_append.mp hc with hc | hc
    · exact h.child_lt p c hc
    · exact hchild c (List.mem_singleton.mp hc).symm
  · rw [node_attach_of_ne t he] at hc
    exact h.child_lt p c hc

theorem grounded_register (h : t.Grounded root) {f : String} {id : Nat} (hid : id < t.nextId) :
    (t.register f id).Grounded root := by
  refine ⟨h.root_lt, h.child_lt, fun g body hg => ?_⟩
  have hg' : (t.fragments.insertNew f id).get? g = some body := hg
  rw [Table.get?_insertNew] at hg'
  rcases Option.or_eq_some_iff.mp hg' with hg | ⟨_, hg⟩
  · exact h.fragment_lt g body hg
  · split at hg
    · cases hg
      exact hid
    · cases hg

theorem grafts_grounded (root : NodeId) : Grafts (fun _ => True) (·.Grounded root) where
  spread hp _ h := grounded_attach h hp nofun
  field := by
    intro t parent n hp hn h
    have hlt : t.nextId < (t.push n).nextId := by rw [nextId_push]; exact Nat.lt_succ_self _
    refine grounded_attach (grounded_push h hn) (Nat.lt_trans hp hlt) fun c hc => ?_
    cases hc
    exact ⟨hp, hlt⟩

theorem grounded_graftAll (os : List Outline) (h : t.Grounded root) (hp : parent < t.nextId) :
    (graftAll parent os t).Grounded root :=
  (grafts_grounded root).graftAll parent os (fun _ _ => trivial) hp h

theorem grounded_rooted (parts : List Outline) : (rooted parts).Grounded 0 := by
  have hroot : (empty.push .container).Grounded 0 := by decide
  exact grounded_graftAll parts hroot (Nat.lt_succ_self 0)

theorem grounded_plant (h : t.Grounded root) (entry : String × List Outline) : (t.plant entry).Grounded root := by
  have hlt : t.nextId < (t.push .container).nextId := by rw [nextId_push]; exact Nat.lt_succ_self _
  exact grounded_graftAll entry.2 (grounded_register (grounded_push h rfl) hlt) hlt

theorem grounded_foldl_plant (h : t.Grounded root) (bodies : List (String × List Outline)) :
    (bodies.foldl plant t).Grounded root := by
  induction bodies generalizing t with
  | nil => exact h
  | cons entry rest ih => exact ih (grounded_plant h entry)

end CostTree

end QueryCost
