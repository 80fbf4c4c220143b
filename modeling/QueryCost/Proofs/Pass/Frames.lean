/-
  QueryCost.Proofs.Pass.Frames — the frames of a pass are in balance.

  A pass opens a node when a field is entered and closes one when it is left, but entering
  may come out in three ways: the field is skipped and never left, the node on top is opened
  once more, or a new one is opened. Whatever comes between entering and leaving closes what
  it opens, so leaving closes what entering opened.

  - `Visitor.Returns`, `selections_returned`: what holds of the states before and after each
    thing that is visited, by going through the selections once for all relations.
  - `returns_balanced`: visiting keeps the types, the frames and the operations, wherever it
    begins.
  - `states`: all states of a pass, from entering the document to leaving it. In each the
    document's node is the bottom frame (`Framed`). From each to any later one the tree only
    grows, and a node that is not open is neither opened nor changed again (`Onward`).
  - `frames_disciplined`: all of it, for every pass.
-/

import QueryCost.Proofs.Pass.Report
import QueryCost.Proofs.Pass.Simulation

namespace QueryCost

/-! ## What visiting returns to -/

namespace Visitor

variable {σ : Type}

/-- The state behind a thing that is visited is related to the one before it, provided what
    is inside keeps to the relation. -/
structure Returns (v : Visitor σ) (R : σ → σ → Prop) : Prop where
  refl (s : σ) : R s s
  trans {s s' s'' : σ} : R s s' → R s' s'' → R s s''
  skipped {p : Place} {f : Field} {below : List Selection} {s s' : σ} :
    v.enterField p f below s = (.skip, s') → R s s'
  entered {p p' : Place} {f : Field} {below : List Selection} {s s' s'' : σ} :
    v.enterField p f below s = (.next, s') → R s' s'' → R s (v.exitField p' f below s'')
  spread (p : Place) (fragment : String) (s : σ) : R s (v.spread p fragment s)
  operation {p p' : Place} {name : Option String} {op : Operation} {s s' : σ} :
    R (v.enterOperation p name op s) s' → R s (v.exitOperation p' name op s')
  fragment {p p' : Place} {name : String} {f : Fragment} {s s' : σ} :
    R (v.enterFragment p name f s) s' → R s (v.exitFragment p' name f s')

/-- The place is the same, and the states are related. -/
structure Returned (R : σ → σ → Prop) (w w' : Walk σ) : Prop where
  place : w'.place = w.place
  state : R w.state w'.state

variable {v : Visitor σ} {R : σ → σ → Prop} {w w' w'' : Walk σ}

theorem Returns.done (h : v.Returns R) (w : Walk σ) : Returned R w w := ⟨rfl, h.refl w.state⟩

theorem Returns.then (h : v.Returns R) (hw : Returned R w w') (hw' : Returned R w' w'') : Returned R w w'' :=
  ⟨hw'.place.trans hw.place, h.trans hw.state hw'.state⟩

mutual

theorem selection_returned (h : v.Returns R) (sel : Selection) (w : Walk σ) : Returned R w (v.selection sel w) := by
  cases sel with
  | field f below =>
    cases hout : v.enterField (w.push (w.landing f.name)).place f below w.state with
    | mk flow s =>
      cases flow with
      | skip =>
        rw [selection_of_skip hout]
        exact ⟨rfl, h.skipped hout⟩
      | next =>
        rw [selection_of_next hout]
        have hbelow := selections_returned h below ⟨(w.push (w.landing f.name)).place, s⟩
        exact ⟨Walk.place_pop hbelow.place, h.entered hout hbelow.state⟩
  | inline condition directives below =>
    cases condition with
    | none => exact selections_returned h below w
    | some t =>
      have hbelow := selections_returned h below (w.push (w.type? t))
      exact ⟨Walk.place_pop hbelow.place, hbelow.state⟩
  | spread f directives => exact ⟨rfl, h.spread w.place f w.state⟩

theorem selections_returned (h : v.Returns R) (selections : List Selection) (w : Walk σ) :
    Returned R w (v.selections selections w) := by
  cases selections with
  | nil => exact h.done w
  | cons sel others => exact h.then (selection_returned h sel w) (selections_returned h others (v.selection sel w))

end

theorem operation_returned (h : v.Returns R) (w : Walk σ) (entry : Option String × Operation) :
    Returned R w (v.operation w entry) := by
  obtain ⟨name, op⟩ := entry
  have hbelow := selections_returned h op.selections
    ((w.push (w.place.schema.root? op.kind)).tell fun p => v.enterOperation p name op)
  exact ⟨Walk.place_pop hbelow.place, h.operation hbelow.state⟩

theorem fragment_returned (h : v.Returns R) (w : Walk σ) (entry : String × Fragment) :
    Returned R w (v.fragment w entry) := by
  obtain ⟨name, f⟩ := entry
  have hbelow := selections_returned h f.selections
    ((w.push (w.type? f.condition)).tell fun p => v.enterFragment p name f)
  exact ⟨Walk.place_pop hbelow.place, h.fragment hbelow.state⟩

theorem Returns.foldl {α : Type} (h : v.Returns R) {visit : Walk σ → α → Walk σ}
    (hvisit : ∀ w x, Returned R w (visit w x)) (xs : List α) (w : Walk σ) : Returned R w (xs.foldl visit w) := by
  induction xs generalizing w with
  | nil => exact h.done w
  | cons x rest ih => exact h.then (hvisit w x) (ih (visit w x))

theorem definitions_returned (h : v.Returns R) (w : Walk σ) : Returned R w (v.definitions w) :=
  h.then (h.foldl (operation_returned h) w.place.document.operationsInOrder w)
    (h.foldl (fragment_returned h) _ _)

/-! ## All states -/

/-- The visitor with all the states it has been in, but for the last. -/
def tracing (v : Visitor σ) : Visitor (σ × List σ) where
  enterDocument p r := reached r.2 (v.enterDocument p r.1)
  exitDocument p r := (v.exitDocument p r.1, r.2)
  enterOperation p name op r := reached r.2 (v.enterOperation p name op r.1)
  exitOperation p name op r := reached r.2 (v.exitOperation p name op r.1)
  enterFragment p name f r := reached r.2 (v.enterFragment p name f r.1)
  exitFragment p name f r := reached r.2 (v.exitFragment p name f r.1)
  enterField p f below r := ((v.enterField p f below r.1).1, reached r.2 (v.enterField p f below r.1).2)
  exitField p f below r := reached r.2 (v.exitField p f below r.1)
  spread p fragment r := reached r.2 (v.spread p fragment r.1)
where
  reached (before : List σ) (s : σ) : σ × List σ := (s, before ++ [s])

/-- Keeping the states changes nothing about them. -/
theorem tracing_simulates (v : Visitor σ) (document : Document) :
    v.tracing.Simulates v document document fun r s => r.1 = s where
  enterDocument := by rintro p r _ rfl rfl; rfl
  exitDocument := by rintro p r _ rfl rfl; rfl
  enterOperation name op := by rintro p r _ rfl rfl; rfl
  exitOperation name op := by rintro p r _ rfl rfl; rfl
  enterFragment name f := by rintro p r _ rfl rfl; rfl
  exitFragment name f := by rintro p r _ rfl rfl; rfl
  enterField f below := by rintro p r _ rfl rfl; exact ⟨rfl, rfl⟩
  exitField f below := by rintro p r _ rfl rfl; rfl
  spread fragment := by rintro p r _ rfl rfl; rfl

end Visitor

namespace Pass

variable {a : Analyzer} {s s' s'' : Pass}

/-! ## Frames -/

@[simp] theorem frames_attach (s : Pass) (c : Child) : (s.attach c).frames = s.frames := by
  unfold attach
  split <;> rfl

@[simp] theorem operations_attach (s : Pass) (c : Child) : (s.attach c).operations = s.operations := by
  unfold attach
  split <;> rfl

@[simp] theorem frames_openChild (s : Pass) (n : CostNode) : (s.openChild n).frames = s.tree.nextId :: s.frames := by
  simp only [openChild, frames_attach]

@[simp] theorem operations_openChild (s : Pass) (n : CostNode) : (s.openChild n).operations = s.operations := by
  simp only [openChild, operations_attach]

@[simp] theorem operations_reopen (s : Pass) : s.reopen.operations = s.operations := by
  unfold reopen
  split <;> rfl

@[simp] theorem tail_frames_reopen (s : Pass) : s.reopen.frames.tail = s.frames := by
  unfold reopen
  split
  · rename_i h; rw [h, List.tail_nil]
  · rename_i h; rw [h, List.tail_cons]

/-- The ways to enter a field. -/
inductive Opened (document : Document) (supplied : Variables) (s : Pass) : Flow × Pass → Prop
  | skipped {s' : Pass} : Quiet document supplied s s' → Opened document supplied s (.skip, s')
  | again : Opened document supplied s (.next, s.reopen)
  | child {s' : Pass} (n : CostNode) : Quiet document supplied s s' →
      Opened document supplied s (.next, s'.openChild n)

theorem enterField_opened (p : Place) (field : Field) (below : List Selection) (s : Pass) :
    Opened p.document p.supplied s (enterField p field below s) := by
  have hstart := Quiet.refl p.document p.supplied s
  unfold enterField
  split
  · exact .skipped hstart
  · cases p.parentType with
    | none => exact .skipped (hstart.note _)
    | some parent =>
      simp only
      split
      · exact .again
      · cases parent.field? field.name with
        | none => exact .skipped (hstart.note _)
        | some entry =>
          obtain ⟨-, hquiet⟩ := multipliers_spec p field entry (p.schema.fieldCost parent field.name) s
          simp only
          generalize s.multipliers p field entry (p.schema.fieldCost parent field.name) = out at hquiet
          obtain ⟨sizes, s'⟩ := out
          cases sizes with
          | none => exact .skipped (hquiet.note _)
          | some sizes => exact .child _ hquiet

/-! ## Balance -/

/-- The same nodes are open, in the same operations. -/
structure Balanced (s s' : Pass) : Prop where
  frames : s'.frames = s.frames
  operations : s'.operations = s.operations

theorem Balanced.trans (h : Balanced s s') (h' : Balanced s' s'') : Balanced s s'' :=
  ⟨h'.frames.trans h.frames, h'.operations.trans h.operations⟩

theorem balanced_of_skip {p : Place} {f : Field} (below : List Selection)
    (h : enterField p f below s = (.skip, s')) : Balanced s s' := by
  have hopened := enterField_opened p f below s
  rw [h] at hopened
  cases hopened with
  | skipped hquiet => exact ⟨hquiet.frames, hquiet.kept.operations⟩

/-- Going into a field puts one node on top, so leaving it closes that one. -/
theorem balanced_of_next {p : Place} {f : Field} (below : List Selection)
    (h : enterField p f below s = (.next, s')) (hbelow : Balanced s' s'') : Balanced s s''.close := by
  have hopened := enterField_opened p f below s
  rw [h] at hopened
  have hclosed : s'.frames.tail = s.frames ∧ s'.operations = s.operations := by
    cases hopened with
    | again => simp
    | child n hquiet => simp [hquiet.frames, hquiet.kept.operations]
  refine ⟨?_, hbelow.operations.trans hclosed.2⟩
  rw [close, hbelow.frames, hclosed.1]

theorem balanced_spread (p : Place) (fragment : String) (s : Pass) : Balanced s (s.spread p fragment) := by
  unfold spread
  cases p.document.fragment? fragment with
  | none => exact ⟨rfl, rfl⟩
  | some f => exact ⟨frames_attach s _, operations_attach s _⟩

theorem returns_balanced (a : Analyzer) : (visitor a).Returns Balanced where
  refl _ := ⟨rfl, rfl⟩
  trans := .trans
  skipped := @fun _ _ below _ _ h => balanced_of_skip below h
  entered := @fun _ _ _ below _ _ _ h hbelow => balanced_of_next below h hbelow
  spread := balanced_spread
  operation h := ⟨h.frames, congrArg List.tail h.operations⟩
  fragment h := ⟨congrArg List.tail h.frames, h.operations⟩

/-! ## Onward -/

/-- The tree has grown at most: nodes have come, and children at the end of old ones. A node
    that was not open is neither opened nor changed. -/
structure Onward (s s' : Pass) : Prop where
  size : s.tree.nextId ≤ s'.tree.nextId
  grown : ∀ id : NodeId, id < s.tree.nextId → ∃ cs,
    s'.tree.node id = { s.tree.node id with children := (s.tree.node id).children ++ cs }
  closed : ∀ id : NodeId, id < s.tree.nextId → id ∉ s.frames → id ∉ s'.frames ∧ s'.tree.node id = s.tree.node id

theorem Onward.trans (h : Onward s s') (h' : Onward s' s'') : Onward s s'' := by
  refine ⟨Nat.le_trans h.size h'.size, fun id hid => ?_, fun id hid hclosed => ?_⟩
  · obtain ⟨cs, hnode⟩ := h.grown id hid
    obtain ⟨cs', hnode'⟩ := h'.grown id (Nat.lt_of_lt_of_le hid h.size)
    exact ⟨cs ++ cs', by rw [hnode', hnode, List.append_assoc]⟩
  · obtain ⟨hclosed', hnode⟩ := h.closed id hid hclosed
    obtain ⟨hclosed'', hnode'⟩ := h'.closed id (Nat.lt_of_lt_of_le hid h.size) hclosed'
    exact ⟨hclosed'', hnode'.trans hnode⟩

/-- No node is changed, and only new ones are opened. -/
theorem Onward.of_nodes (hsize : s.tree.nextId ≤ s'.tree.nextId)
    (hnode : ∀ id : NodeId, id < s.tree.nextId → s'.tree.node id = s.tree.node id)
    (hframes : ∀ id ∈ s'.frames, id ∈ s.frames ∨ s.tree.nextId ≤ id) : Onward s s' := by
  refine ⟨hsize, fun id hid => ⟨[], by rw [hnode id hid, List.append_nil]⟩, fun id hid hclosed => ?_⟩
  refine ⟨fun h => ?_, hnode id hid⟩
  rcases hframes id h with h | h
  · exact hclosed h
  · exact absurd h (Nat.not_le_of_lt hid)

theorem Onward.of_tree (htree : s'.tree = s.tree) (hframes : ∀ id ∈ s'.frames, id ∈ s.frames) : Onward s s' :=
  .of_nodes (Nat.le_of_eq (by rw [htree])) (fun _ _ => by rw [htree]) fun id h => .inl (hframes id h)

theorem Onward.refl (s : Pass) : Onward s s := .of_tree rfl fun _ h => h

theorem onward_close (s : Pass) : Onward s s.close := .of_tree rfl fun _ h => List.mem_of_mem_tail h

theorem onward_reopen (s : Pass) : Onward s s.reopen := by
  unfold reopen
  split
  · exact .refl s
  · rename_i top rest h
    refine .of_tree rfl fun id hid => ?_
    rw [h]
    simpa using hid

theorem onward_attach (s : Pass) (c : Child) : Onward s (s.attach c) := by
  unfold attach
  split
  · exact .refl s
  · rename_i top rest h
    have hsize := CostTree.nextId_attach s.tree top c
    refine ⟨Nat.le_of_eq hsize.symm, fun id hid => ?_, fun id _ hclosed => ⟨hclosed, ?_⟩⟩
    · by_cases htop : id = top
      · subst htop
        exact ⟨[c], s.tree.node_attach_self hid c⟩
      · exact ⟨[], by rw [s.tree.node_attach_of_ne htop, List.append_nil]⟩
    · have hne : id ≠ top := fun e => hclosed (by rw [h, e]; exact List.mem_cons_self ..)
      exact s.tree.node_attach_of_ne hne c

theorem onward_push (s : Pass) (n : CostNode) : Onward s { s with tree := s.tree.push n } :=
  .of_nodes (by rw [CostTree.nextId_push]; exact Nat.le_succ _)
    (fun _ hid => s.tree.node_push_of_ne n (Nat.ne_of_lt hid)) fun _ h => .inl h

/-- A node that is opened is a new one. -/
theorem onward_open {id : NodeId} (hid : s.tree.nextId ≤ id) (h : Onward s s') :
    Onward s { s' with frames := id :: s'.frames } := by
  refine ⟨h.size, h.grown, fun i hi hclosed => ?_⟩
  obtain ⟨hclosed', hnode⟩ := h.closed i hi hclosed
  refine ⟨fun hmem => ?_, hnode⟩
  rcases List.mem_cons.mp hmem with rfl | hmem
  · exact absurd hid (Nat.not_le_of_lt hi)
  · exact hclosed' hmem

theorem onward_openChild (s : Pass) (n : CostNode) : Onward s (s.openChild n) :=
  onward_open (Nat.le_refl _) ((onward_push s n).trans (onward_attach _ _))

theorem onward_enterFragment (name : String) (s : Pass) : Onward s (s.enterFragment name) := by
  refine .of_nodes ?_ (fun id hid => s.tree.node_push_of_ne _ (Nat.ne_of_lt hid)) fun id hid => ?_
  · show s.tree.nextId ≤ (s.tree.push .container).nextId
    rw [CostTree.nextId_push]
    exact Nat.le_succ _
  · exact (List.mem_cons.mp hid).elim (fun e => .inr (Nat.le_of_eq e.symm)) .inl

theorem onward_enterField (p : Place) (f : Field) (below : List Selection) (s : Pass) :
    Onward s (enterField p f below s).2 := by
  have hopened := enterField_opened p f below s
  generalize enterField p f below s = out at hopened
  cases hopened with
  | skipped hquiet => exact .of_tree hquiet.tree fun id h => hquiet.frames ▸ h
  | again => exact onward_reopen s
  | child n hquiet =>
    have hquiet' : Onward s _ := .of_tree hquiet.tree fun id h => hquiet.frames ▸ h
    exact hquiet'.trans (onward_openChild _ n)

theorem onward_spread (p : Place) (fragment : String) (s : Pass) : Onward s (s.spread p fragment) := by
  unfold spread
  cases p.document.fragment? fragment with
  | none => exact .of_tree rfl fun _ h => h
  | some f => exact onward_attach s _

/-! ## All states of a pass -/

/-- The document's node is open at the bottom, and what is open is in the tree. -/
structure Framed (s : Pass) : Prop where
  bottom : s.frames.getLast? = some 0
  inside : ∀ id ∈ s.frames, id < s.tree.nextId

/-- The open nodes stay in a tree that grows. -/
theorem Framed.of_frames (h : Framed s) (hframes : s'.frames = s.frames) (honward : Onward s s') : Framed s' := by
  refine ⟨by rw [hframes]; exact h.bottom, fun id hid => ?_⟩
  rw [hframes] at hid
  exact Nat.lt_of_lt_of_le (h.inside id hid) honward.size

/-- There is a node to attach to, and it is what is attached to. -/
theorem Framed.attaches (h : Framed s) : ∃ top rest, s.frames = top :: rest ∧
    (∀ c, (s.attach c).tree.node top = { s.tree.node top with children := (s.tree.node top).children ++ [c] }) ∧
    ∀ n, (s.openChild n).tree.node top =
      { s.tree.node top with children := (s.tree.node top).children ++ [.node s.tree.nextId] } := by
  cases hframes : s.frames with
  | nil =>
    have hbottom := h.bottom
    rw [hframes] at hbottom
    cases hbottom
  | cons top rest =>
    have htop : top < s.tree.nextId := h.inside top (by rw [hframes]; exact List.mem_cons_self ..)
    refine ⟨top, rest, rfl, fun c => ?_, fun n => ?_⟩
    · rw [attach_of_frames hframes]
      exact s.tree.node_attach_self htop c
    · have htop' : top < (s.tree.push n).nextId := by rw [CostTree.nextId_push]; exact Nat.lt_succ_of_lt htop
      rw [openChild_of_frames hframes]
      simp only [CostTree.node_attach_self _ htop', s.tree.node_push_of_ne n (Nat.ne_of_lt htop)]

/-- The states kept so far, the last of which is that of the pass, go onward, and all have
    the document's node open. -/
structure Logged (r : Pass × List Pass) : Prop where
  last : r.2.getLast? = some r.1
  framed : ∀ s ∈ r.2, Framed s
  onward : r.2.Pairwise Onward

theorem Logged.now {log : List Pass} (h : Logged (s, log)) : Framed s := h.framed s (List.mem_of_getLast? h.last)

/-- All states lead to the one that was reached last. -/
theorem Logged.leads {log : List Pass} (h : Logged (s, log)) : ∀ x ∈ log, Onward x s := by
  obtain ⟨before, hlog⟩ := List.getLast?_eq_some_iff.mp h.last
  have honward := h.onward
  simp only at hlog honward
  subst hlog
  intro x hx
  rcases List.mem_append.mp hx with hx | hx
  · exact (List.pairwise_append.mp honward).2.2 x hx s (List.mem_singleton.mpr rfl)
  · rw [List.mem_singleton.mp hx]
    exact .refl s

theorem Logged.step {log : List Pass} (h : Logged (s, log)) (honward : Onward s s') (hframed : Framed s') :
    Logged (s', log ++ [s']) := by
  refine ⟨List.getLast?_concat, fun x hx => ?_, List.pairwise_append.mpr ⟨h.onward, List.pairwise_singleton .., ?_⟩⟩
  · rcases List.mem_append.mp hx with hx | hx
    · exact h.framed x hx
    · rw [List.mem_singleton.mp hx]
      exact hframed
  · intro x hx y hy
    rw [List.mem_singleton.mp hy]
    exact (h.leads x hx).trans honward

/-- What visiting does to the states kept: it comes back to the frames it began with, and
    goes onward on the way. -/
structure Toured (r r' : Pass × List Pass) : Prop where
  balanced : Balanced r.1 r'.1
  onward : Onward r.1 r'.1
  logged : Logged r → Logged r'

variable {r r' : Pass × List Pass}

theorem toured_step (hbalanced : Balanced r.1 s') (honward : Onward r.1 s') : Toured r (s', r.2 ++ [s']) :=
  ⟨hbalanced, honward, fun h => h.step honward (h.now.of_frames hbalanced.frames honward)⟩

/-- Between two steps of which the second takes back what the first did to the frames. -/
theorem toured_between (henter : Onward r.1 s) (hframed : Framed r.1 → Framed s)
    (hinside : Toured (s, r.2 ++ [s]) r') (hleave : Onward r'.1 s') (hbalanced : Balanced r.1 s') :
    Toured r (s', r'.2 ++ [s']) := by
  have honward := (henter.trans hinside.onward).trans hleave
  refine ⟨hbalanced, honward, fun h => ?_⟩
  have hlogged := hinside.logged (h.step henter (hframed h.now))
  exact hlogged.step hleave (h.now.of_frames hbalanced.frames honward)

/-! ## Steps -/

theorem framed_openChild (h : Framed s) (n : CostNode) : Framed (s.openChild n) := by
  refine ⟨?_, fun id hid => ?_⟩
  · rw [frames_openChild, List.getLast?_cons, h.bottom]
    rfl
  · have hsize : (s.openChild n).tree.nextId = s.tree.nextId + 1 := by
      obtain ⟨top, rest, hframes, -⟩ := h.attaches
      rw [openChild_of_frames hframes]
      simp
    rw [frames_openChild] at hid
    rw [hsize]
    rcases List.mem_cons.mp hid with rfl | hid
    · exact Nat.lt_succ_self _
    · exact Nat.lt_succ_of_lt (h.inside id hid)

/-- Entering a field keeps the document's node open. -/
theorem framed_enterField (h : Framed s) (p : Place) (f : Field) (below : List Selection) :
    Framed (enterField p f below s).2 := by
  have hopened := enterField_opened p f below s
  generalize enterField p f below s = out at hopened
  cases hopened with
  | skipped hquiet => exact h.of_frames hquiet.frames (.of_tree hquiet.tree fun id hid => hquiet.frames ▸ hid)
  | again =>
    obtain ⟨top, rest, hframes, -⟩ := h.attaches
    have hbottom := h.bottom
    rw [hframes] at hbottom
    rw [reopen_of_frames hframes]
    refine ⟨by rw [List.getLast?_cons, hbottom]; rfl, fun id hid => h.inside id ?_⟩
    rw [hframes]
    simpa using hid
  | @child s' n hquiet =>
    have hframed : Framed s' := h.of_frames hquiet.frames (.of_tree hquiet.tree fun id hid => hquiet.frames ▸ hid)
    exact framed_openChild hframed n

theorem framed_enterFragment (h : Framed s) (name : String) : Framed (s.enterFragment name) := by
  have hsize : (s.enterFragment name).tree.nextId = s.tree.nextId + 1 := by simp [enterFragment, openDetached]
  have hframes : (s.enterFragment name).frames = s.tree.nextId :: s.frames := rfl
  refine ⟨by rw [hframes, List.getLast?_cons, h.bottom]; rfl, fun id hid => ?_⟩
  rw [hframes] at hid
  rw [hsize]
  rcases List.mem_cons.mp hid with rfl | hid
  · exact Nat.lt_succ_self _
  · exact Nat.lt_succ_of_lt (h.inside id hid)

theorem returns_toured (a : Analyzer) : (visitor a).tracing.Returns Toured where
  refl r := ⟨⟨rfl, rfl⟩, .refl r.1, fun h => h⟩
  trans h h' := ⟨h.balanced.trans h'.balanced, h.onward.trans h'.onward, fun hr => h'.logged (h.logged hr)⟩
  skipped := by
    intro p f below r r' h
    obtain ⟨hflow, rfl⟩ := Prod.mk.inj h
    exact toured_step (balanced_of_skip below (Prod.ext hflow rfl)) (onward_enterField p f below r.1)
  entered := by
    intro p p' f below r r' r'' h hbelow
    obtain ⟨hflow, rfl⟩ := Prod.mk.inj h
    refine toured_between (onward_enterField p f below r.1) (fun hr => framed_enterField hr p f below) hbelow
      (onward_close r''.1) ?_
    exact balanced_of_next below (Prod.ext hflow rfl) hbelow.balanced
  spread p fragment r := toured_step (balanced_spread p fragment r.1) (onward_spread p fragment r.1)
  operation := by
    intro p p' name op r r' hbelow
    have henter : Onward r.1 { r.1 with operations := op :: r.1.operations } := .of_tree rfl fun _ h => h
    refine toured_between henter (fun hr => hr.of_frames rfl henter) hbelow (.of_tree rfl fun _ h => h) ?_
    exact ⟨hbelow.balanced.frames, congrArg List.tail hbelow.balanced.operations⟩
  fragment := by
    intro p p' name f r r' hbelow
    refine toured_between (onward_enterFragment name r.1) (fun hr => framed_enterFragment hr name) hbelow
      (onward_close r'.1) ?_
    exact ⟨congrArg List.tail hbelow.balanced.frames, hbelow.balanced.operations⟩

/-- The states of a pass, from the one in which the document is entered to the one in which
    it is left. -/
def states (a : Analyzer) (schema : Schema) (document : Document) (supplied : Variables) : List Pass :=
  ((visitor a).tracing.walk schema document supplied (start, [])).2

theorem framed_entered (schema : Schema) (document : Document) (supplied : Variables) :
    Framed (entered schema document supplied).state :=
  ⟨rfl, fun _ hid => List.mem_singleton.mp hid ▸ Nat.zero_lt_one⟩

theorem frames_finish (a : Analyzer) (p : Place) (h : s.frames = [0]) : (s.finish a p).frames = [] := by
  simp only [finish, h]
  split
  · rename_i total _
    simp only [judge]
    cases (evaluate total a.maxComplexity).error? <;> simp [note, close, h]
  · simp [reportCycle, close, h]
  · simp [close, h]

theorem states_logged (a : Analyzer) (schema : Schema) (document : Document) (supplied : Variables) :
    Logged (built a schema document supplied, states a schema document supplied) := by
  let w : Walk (Pass × List Pass) :=
    ⟨(entered schema document supplied).place, (entered schema document supplied).state,
      [(entered schema document supplied).state]⟩
  have hstart : Logged w.state := by
    refine ⟨rfl, fun s hs => ?_, List.pairwise_singleton ..⟩
    rw [List.mem_singleton.mp hs]
    exact framed_entered schema document supplied
  have htoured := Visitor.definitions_returned (returns_toured a) w
  have hstates : states a schema document supplied = ((visitor a).tracing.definitions w).state.2 := rfl
  have hentered : w.Abreast document document (fun r s => r.1 = s) (entered schema document supplied) := ⟨rfl, rfl, rfl⟩
  have habreast := (Visitor.tracing_simulates (visitor a) document).definitions_abreast rfl rfl hentered
  have hbuilt : built a schema document supplied = ((visitor a).tracing.definitions w).state.1 := habreast.state.symm
  rw [hstates, hbuilt]
  exact htoured.state.logged hstart

/-- In every state of a pass the document's node is open at the bottom, so all that is
    attached goes to a node; and the tree only grows, a node that is closed staying as it is.
    Whatever is visited, wherever, leaves the types, the open nodes and the operations as
    they were. So the document's node alone is open when it is left, and none after that. -/
theorem frames_disciplined (a : Analyzer) (schema : Schema) (document : Document) (supplied : Variables) :
    (∀ s ∈ states a schema document supplied, Framed s ∧ ∃ top rest, s.frames = top :: rest ∧
      (∀ c, (s.attach c).tree.node top = { s.tree.node top with children := (s.tree.node top).children ++ [c] }) ∧
      ∀ n, (s.openChild n).tree.node top =
        { s.tree.node top with children := (s.tree.node top).children ++ [.node s.tree.nextId] }) ∧
    (states a schema document supplied).Pairwise Onward ∧
    (∀ w, (∀ sel, Visitor.Returned Balanced w ((visitor a).selection sel w)) ∧
      (∀ entry, Visitor.Returned Balanced w ((visitor a).operation w entry)) ∧
      ∀ entry, Visitor.Returned Balanced w ((visitor a).fragment w entry)) ∧
    (states a schema document supplied).getLast? = some (built a schema document supplied) ∧
    (built a schema document supplied).frames = [0] ∧ (runPass a schema document supplied).frames = [] := by
  have hlogged := states_logged a schema document supplied
  have hbuilt := built_scoped a schema document supplied
  refine ⟨fun s hs => ⟨hlogged.framed s hs, (hlogged.framed s hs).attaches⟩, hlogged.onward, fun w => ?_,
    hlogged.last, hbuilt.frames, ?_⟩
  · exact ⟨fun sel => Visitor.selection_returned (returns_balanced a) sel w,
      Visitor.operation_returned (returns_balanced a) w, Visitor.fragment_returned (returns_balanced a) w⟩
  · rw [runPass_eq]
    exact frames_finish a _ hbuilt.frames

/-- The document, its operation with a spread in it, and the three fragments. -/
example : (states (.ofMax 10) shop ring ∅).map (·.frames) =
    [[0], [0], [0], [0], [1, 0], [1, 0], [0], [2, 0], [2, 0], [0], [3, 0], [3, 0], [0]] := by decide +kernel

end Pass

end QueryCost
