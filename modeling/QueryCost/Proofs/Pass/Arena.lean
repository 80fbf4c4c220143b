/-
  QueryCost.Proofs.Pass.Arena — the tree of a pass is well formed.

  A spread is recorded only where the document has the fragment, and every fragment of the
  document gets a body before the tree is folded. So nothing dangles when the fold begins,
  whatever fields on unions reopen and whatever is spread before it is planted.

  - `spreads_outlinesAll`: outlines spread fragments of the document only.
  - `Formed`: children come after their parents, every node hangs in one place, and the
    fragments of the document have bodies of their own.
  - `arena_formed`: the tree of a pass is formed, so neither the pass nor the fold looks up a
    node or a body that is not there.
-/

import QueryCost.Proofs.Cost.Iterations
import QueryCost.Proofs.Pass.Frames

namespace QueryCost

/-! ## Spreads of outlines -/

theorem Outline.spreadsAll_append (os os' : List Outline) :
    spreadsAll (os ++ os') = spreadsAll os ++ spreadsAll os' := by
  induction os with
  | nil => rfl
  | cons o rest ih => rw [List.cons_append, spreadsAll, spreadsAll, ih, List.append_assoc]

section

variable {document : Document} {schema : Schema} {values : Option Variables}

mutual

theorem Selection.spreads_outlines (parent : Option TypeEntry) (s : Selection) :
    ∀ f ∈ Outline.spreadsAll (s.outlines document schema values parent), (document.fragment? f).isSome := by
  cases s with
  | field f below =>
    simp only [outlines]
    cases fieldRole schema values parent f with
    | nothing => nofun
    | passing => exact spreads_outlinesAll (schema.landing parent f.name) below
    | counted cost landing sizes =>
      simp only [Outline.spreadsAll, Outline.spreads, List.append_nil]
      exact spreads_outlinesAll (schema.landing parent f.name) below
  | inline condition directives below =>
    cases condition with
    | none => exact spreads_outlinesAll parent below
    | some t => exact spreads_outlinesAll (schema.type? t) below
  | spread f directives =>
    simp only [outlines]
    cases hf : document.fragment? f with
    | none => nofun
    | some fragment =>
      intro g hg
      obtain rfl : g = f := by simpa [Outline.spreadsAll, Outline.spreads] using hg
      rw [hf]
      rfl

theorem Selection.spreads_outlinesAll (parent : Option TypeEntry) (selections : List Selection) :
    ∀ f ∈ Outline.spreadsAll (outlinesAll document schema values parent selections), (document.fragment? f).isSome := by
  cases selections with
  | nil => nofun
  | cons s rest =>
    intro f hf
    rw [outlinesAll, Outline.spreadsAll_append] at hf
    rcases List.mem_append.mp hf with hf | hf
    · exact spreads_outlines parent s f hf
    · exact spreads_outlinesAll parent rest f hf

end

theorem Document.spreads_parts (document : Document) (schema : Schema) (supplied : Variables) :
    ∀ f ∈ Outline.spreadsAll (document.parts schema supplied), (document.fragment? f).isSome := by
  unfold parts
  induction document.operationsInOrder with
  | nil => nofun
  | cons op rest ih =>
    intro f hf
    rw [List.flatMap_cons, Outline.spreadsAll_append] at hf
    rcases List.mem_append.mp hf with hf | hf
    · exact Selection.spreads_outlinesAll _ _ f hf
    · exact ih f hf

end

/-! ## The tree of a pass -/

/-- What there is to say about the tree of a document's pass. -/
structure CostTree.Formed (t : CostTree) (document : Document) : Prop where
  children : ∀ p c, .node c ∈ (t.node p).children → p < c ∧ c < t.nodes.size
  /-- The root and the nodes of the fragments are attached nowhere, every other node once. -/
  once : ∀ id < t.nodes.size, t.attached.count id = if id = 0 ∨ id ∈ t.fragments.values then 0 else 1
  names : t.fragments.keys.Perm document.fragments.keys
  distinct : (0 :: t.fragments.values).Nodup
  bodies : ∀ f body, t.fragments.get? f = some body → body < t.nodes.size ∧ (t.node body).kind = .container
  spreads : ∀ p f, .fragment f ∈ (t.node p).children → (t.fragments.get? f).isSome

namespace Pass

namespace BuiltFrom

variable {schema : Schema} {document : Document} {supplied : Variables} {parts : List Outline} {s : Pass}

/-- What holds of the rooted outlines of the operations and is kept by the steps of grafting
    and planting holds of the tree. -/
theorem keeps {P : CostTree → Prop} (h : BuiltFrom schema document supplied parts s)
    (hparts : ∀ f ∈ Outline.spreadsAll parts, (document.fragment? f).isSome)
    (hgrafts : CostTree.Grafts (fun f => (document.fragment? f).isSome) P)
    (hregister : ∀ {t : CostTree} {f : String}, f ∉ t.fragments.keys → P t →
      P ((t.push .container).register f t.nextId))
    (hroot : P (CostTree.empty.push .container)) :
    P s.tree ∧ s.tree.fragments.keys = document.fragmentsInOrder.map Prod.fst := by
  have hrooted : P (.rooted parts) := hgrafts.graftAll 0 parts hparts (Nat.lt_succ_self 0) hroot
  have hempty : (CostTree.rooted parts).fragments.keys = [] := by rw [(CostTree.rooted_spec parts).2.1]; rfl
  have hnames : ∀ entry ∈ document.bodies schema supplied, ∀ f ∈ Outline.spreadsAll entry.2,
      (document.fragment? f).isSome := by
    rintro ⟨g, below⟩ hentry
    obtain ⟨fragment, -, rfl⟩ := Document.mem_bodies.mp hentry
    exact Selection.spreads_outlinesAll _ _
  have hdistinct : ((CostTree.rooted parts).fragments.keys ++
      (document.bodies schema supplied).map Prod.fst).Nodup := by
    rw [hempty]
    exact document.nodup_bodies schema supplied
  obtain ⟨hall, hkeys⟩ := CostTree.foldl_plant_keeps hgrafts hregister _ hnames hdistinct hrooted
  rw [h.tree]
  refine ⟨hall, ?_⟩
  rw [hkeys, hempty, List.nil_append, Document.bodies, List.map_map]
  rfl

theorem covered (h : BuiltFrom schema document supplied parts s)
    (hparts : ∀ f ∈ Outline.spreadsAll parts, (document.fragment? f).isSome) :
    s.tree.Covered 0 ∧ s.tree.fragments.keys.Perm document.fragments.keys := by
  obtain ⟨hcovered, hkeys⟩ := h.keeps hparts (CostTree.grafts_covered 0) CostTree.covered_register (.refl _)
  have hperm : document.fragmentsInOrder.Perm document.fragments.entries := sortByPosition_perm _ _
  exact ⟨hcovered, hkeys ▸ hperm.map Prod.fst⟩

theorem named (h : BuiltFrom schema document supplied parts s)
    (hparts : ∀ f ∈ Outline.spreadsAll parts, (document.fragment? f).isSome) :
    s.tree.Named fun f => (document.fragment? f).isSome := by
  have hempty : CostTree.Named (fun f => (document.fragment? f).isSome) .empty := nofun
  exact (h.keeps hparts (CostTree.grafts_named _) (fun _ hn => CostTree.named_push rfl hn)
    (CostTree.named_push rfl hempty)).1

theorem formed (h : BuiltFrom schema document supplied parts s)
    (hparts : ∀ f ∈ Outline.spreadsAll parts, (document.fragment? f).isSome) : s.tree.Formed document := by
  obtain ⟨hcovered, hnames⟩ := h.covered hparts
  have hnodup := (hcovered.forest h.grounded).once
  refine ⟨h.grounded.child_lt, fun id hid => hcovered.count_attached hid, hnames, (List.nodup_append.mp hnodup).2.1,
    fun f body hbody => ⟨h.grounded.fragment_lt f body hbody, ?_⟩, fun p f hf => ?_⟩
  · have hkey : f ∈ document.fragments.keys :=
      hnames.mem_iff.mp (List.mem_map_of_mem (s.tree.fragments.get?_eq_some_iff.mp hbody))
    have hcontains : document.fragments.contains f = true := (document.fragments.contains_iff_mem_keys f).mpr hkey
    obtain ⟨fragment, hfragment⟩ := Option.isSome_iff_exists.mp hcontains
    obtain ⟨body', lo, cs, hbody', -, hnode, -⟩ := h.stands f fragment hfragment
    obtain rfl : body = body' := Option.some.inj (hbody.symm.trans hbody')
    rw [hnode]
  · obtain ⟨fragment, hfragment⟩ := Option.isSome_iff_exists.mp (h.named hparts p f hf)
    obtain ⟨body, lo, cs, hbody, -⟩ := h.stands f fragment hfragment
    rw [hbody]
    rfl

end BuiltFrom

/-- So the loop of a pass's fold is bounded. -/
theorem builtTree_forest (a : Analyzer) (schema : Schema) (document : Document) (supplied : Variables) :
    (builtTree a schema document supplied).Forest 0 := by
  have hbuilt := built_scoped a schema document supplied
  exact (hbuilt.covered (document.spreads_parts schema supplied)).1.forest hbuilt.grounded

/-- The tree a pass folds is formed. On the way there is no node open that is not in the
    tree, and in every iteration of its fold the nodes on the stack are in the tree and a
    spread that is taken up has a body; so the fold never meets a spread it does not know. -/
theorem arena_formed (a : Analyzer) (schema : Schema) (document : Document) (supplied : Variables) :
    (builtTree a schema document supplied).Formed document ∧
      (∀ s ∈ states a schema document supplied, ∀ id ∈ s.frames, id < s.tree.nextId) ∧
      (∀ d n, ∀ s ∈ Folder.iterations (builtTree a schema document supplied) d n (.start 0),
        Folder.Served (builtTree a schema document supplied) s) ∧
      ∀ d, ((builtTree a schema document supplied).fold 0 d).2 = [] := by
  have hformed : (builtTree a schema document supplied).Formed document :=
    (built_scoped a schema document supplied).formed (document.spreads_parts schema supplied)
  have hforest := builtTree_forest a schema document supplied
  have hlogged := states_logged a schema document supplied
  refine ⟨hformed, fun s hs => (hlogged.framed s hs).inside, fun d n => ?_, fun d => ?_⟩
  · exact Folder.iterations_served hforest.toGrounded hformed.spreads n
  · exact Folder.run_quiet hformed.spreads _ (.start 0)

end Pass

end QueryCost
