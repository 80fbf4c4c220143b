/-
  QueryCost.Proofs.Schema.Implementors — the objects that implement an interface.

  The index goes through the objects of the registry in order and lists each under the
  interfaces it names, once for every time. A registry holds every type under its own name, so
  what is found by the listed names is the objects themselves.

  - `getD_implementorIndex`: the names under an interface.
  - `implementations_of_parse`: in a schema that is read an interface has the objects that name
    it, and no others.
  - `implementations_listed`: the same by what the document says of the objects.
-/

import QueryCost.Proofs.Schema.Merging

namespace QueryCost

/-- The objects that name an interface, in the order of the registry and each as often as it
    names it. -/
def Schema.objectsNaming (s : Schema) (name : String) : List TypeEntry :=
  (s.types.values.filter (·.kind = .object)).flatMap fun t => List.replicate (t.interfaces.count name) t

/-! ## The index -/

/-- Listing an object once more under each of these interfaces. -/
theorem getD_foldl_insert (interfaces : List String) (object : String) (index : Table String (List String))
    (name : String) :
    ((interfaces.foldl (fun index i => index.insert i ((index.get? i).getD [] ++ [object])) index).get? name).getD [] =
      (index.get? name).getD [] ++ List.replicate (interfaces.count name) object := by
  induction interfaces generalizing index with
  | nil => simp
  | cons i rest ih =>
    rw [List.foldl_cons, ih, Table.get?_insert]
    by_cases hi : i = name
    · rw [if_pos hi, hi, Option.getD_some, List.count_cons_self, List.append_assoc, List.replicate_succ,
        List.singleton_append]
    · rw [if_neg hi, List.count_cons_of_ne hi]

theorem getD_foldl_indexObject (objects : List TypeEntry) (index : Table String (List String)) (name : String) :
    ((objects.foldl indexObject index).get? name).getD [] =
      (index.get? name).getD [] ++ objects.flatMap fun t => List.replicate (t.interfaces.count name) t.name := by
  induction objects generalizing index with
  | nil => simp
  | cons t rest ih => rw [List.foldl_cons, ih, indexObject, getD_foldl_insert, List.flatMap_cons, List.append_assoc]

theorem getD_implementorIndex (types : Table String TypeEntry) (name : String) :
    ((implementorIndex types).get? name).getD [] =
      (types.values.filter (·.kind = .object)).flatMap fun t => List.replicate (t.interfaces.count name) t.name :=
  getD_foldl_indexObject _ ∅ name

/-! ## Implementations -/

/-- Every type of a registry is found by its own name. -/
theorem SelfNamed.get?_of_mem {types : Table String TypeEntry} (h : SelfNamed types) {t : TypeEntry}
    (ht : t ∈ types.values) : types.get? t.name = some t := by
  obtain ⟨⟨name, found⟩, hentry, rfl⟩ := List.mem_map.mp ht
  have hfound : types.get? name = some found := types.get?_eq_some_iff.mpr hentry
  rw [h name found hfound]
  exact hfound

theorem SelfNamed.filterMap_get? {types : Table String TypeEntry} (h : SelfNamed types) {l : List TypeEntry}
    (hl : ∀ t ∈ l, t ∈ types.values) : (l.map (·.name)).filterMap types.get? = l := by
  induction l with
  | nil => rfl
  | cons t rest ih =>
    obtain ⟨ht, hrest⟩ := List.forall_mem_cons.mp hl
    rw [List.map_cons, List.filterMap_cons_some (h.get?_of_mem ht), ih hrest]

/-- An interface of a schema that is read has the objects that name it. -/
theorem implementations_of_parse {parse : Sdl.Parser} {text : String} {s : Schema}
    (h : Schema.parseWith parse text = .ok s) {i : TypeEntry} (hi : i.isInterface = true) :
    s.implementations i = s.objectsNaming i.name := by
  obtain ⟨-, d, -, -, hbuilt⟩ := exists_draft_of_parse h
  have hnames : (s.implementors.get? i.name).getD [] = (s.objectsNaming i.name).map (·.name) := by
    rw [hbuilt.implementors_eq, ← hbuilt.types_eq, getD_implementorIndex, Schema.objectsNaming, List.map_flatMap]
    simp only [List.map_replicate]
  have hmem : ∀ t ∈ s.objectsNaming i.name, t ∈ s.types.values := by
    intro t ht
    obtain ⟨object, hobject, ht⟩ := List.mem_flatMap.mp ht
    rw [List.eq_of_mem_replicate ht]
    exact List.mem_of_mem_filter hobject
  rw [Schema.implementations, if_pos hi, hnames]
  exact (selfNamed_of_parse h).filterMap_get? hmem

/-! ## Documents -/

/-- The interfaces the definitions and extensions of a name list, as often as they do. -/
def Sdl.interfacesOf (name : String) (definitions : List Definition) : List String :=
  (definitionsOf name definitions).flatMap (·.body.interfaces)

section

variable {parse : Sdl.Parser} {text : String} {definitions : List Sdl.Definition} {schema : Schema}

/-- A type names the interfaces that all of its definitions and extensions list. -/
theorem interfaces_of_parse (hread : parse text = .ok definitions) (h : Schema.parseWith parse text = .ok schema)
    {name : String} {t : TypeEntry} (ht : schema.type? name = some t) :
    t.interfaces = Sdl.interfacesOf name definitions := by
  rcases merged_or_bare hread h ht with ⟨-, hmerged⟩ | ⟨hname, rfl⟩
  · exact hmerged.interfaces_eq
  · rw [Sdl.interfacesOf, Sdl.definitionsOf_eq_nil_iff.mpr hname]
    rfl

theorem objectsNaming_eq (hread : parse text = .ok definitions) (h : Schema.parseWith parse text = .ok schema)
    (name : String) :
    schema.objectsNaming name = (schema.types.values.filter (·.kind = .object)).flatMap fun o =>
      List.replicate ((Sdl.interfacesOf o.name definitions).count name) o := by
  refine List.flatMap_congr fun o ho => ?_
  have hfound : schema.type? o.name = some o := (selfNamed_of_parse h).get?_of_mem (List.mem_of_mem_filter ho)
  rw [interfaces_of_parse hread h hfound]

/-- What is listed is the objects of the registry that name the interface. -/
theorem mem_objectsNaming (h : Schema.parseWith parse text = .ok schema) {name : String} {o : TypeEntry} :
    o ∈ schema.objectsNaming name ↔ schema.type? o.name = some o ∧ o.kind = .object ∧ name ∈ o.interfaces := by
  constructor
  · intro ho
    obtain ⟨object, hobject, ho⟩ := List.mem_flatMap.mp ho
    obtain ⟨hcount, rfl⟩ := List.mem_replicate.mp ho
    obtain ⟨hmem, hkind⟩ := List.mem_filter.mp hobject
    refine ⟨(selfNamed_of_parse h).get?_of_mem hmem, of_decide_eq_true hkind, ?_⟩
    exact List.count_pos_iff.mp (Nat.pos_of_ne_zero hcount)
  · rintro ⟨hfound, hkind, hnames⟩
    have hmem : o ∈ schema.types.values := List.mem_map_of_mem (schema.types.get?_eq_some_iff.mp hfound)
    refine List.mem_flatMap.mpr ⟨o, List.mem_filter.mpr ⟨hmem, decide_eq_true hkind⟩, List.mem_replicate.mpr ⟨?_, rfl⟩⟩
    exact Nat.ne_of_gt (List.count_pos_iff.mpr hnames)

/-- In a schema that is read an interface has the objects whose definitions and extensions, all
    taken together, list its name, in the order of the registry and each as often as they do.
    Other types have none, even where objects name them. So nothing implements a type but
    objects of the registry that name it. -/
theorem implementations_listed (hread : parse text = .ok definitions) (h : Schema.parseWith parse text = .ok schema)
    (t : TypeEntry) :
    (t.kind = .interface → schema.implementations t =
      (schema.types.values.filter (·.kind = .object)).flatMap fun o =>
        List.replicate ((Sdl.interfacesOf o.name definitions).count t.name) o) ∧
    (t.kind ≠ .interface → schema.implementations t = []) ∧
    ∀ o, o ∈ schema.implementations t ↔
      t.kind = .interface ∧ schema.type? o.name = some o ∧ o.kind = .object ∧
        t.name ∈ Sdl.interfacesOf o.name definitions := by
  have hnone : t.kind ≠ .interface → schema.implementations t = [] := fun hkind =>
    if_neg fun hinterface => hkind (of_decide_eq_true hinterface)
  have hlisted : t.kind = .interface → schema.implementations t = schema.objectsNaming t.name := fun hkind =>
    implementations_of_parse h (decide_eq_true hkind)
  refine ⟨fun hkind => (hlisted hkind).trans (objectsNaming_eq hread h t.name), hnone, fun o => ?_⟩
  by_cases hkind : t.kind = .interface
  · rw [hlisted hkind, mem_objectsNaming h]
    constructor
    · rintro ⟨hfound, hobject, hnames⟩
      exact ⟨hkind, hfound, hobject, interfaces_of_parse hread h hfound ▸ hnames⟩
    · rintro ⟨-, hfound, hobject, hnames⟩
      exact ⟨hfound, hobject, interfaces_of_parse hread h hfound ▸ hnames⟩
  · rw [hnone hkind]
    simp [hkind]

end

/-- Two objects: the first names an interface twice, and the second names the first. -/
def namedTwice : String :=
  "type Query implements Node&Gone interface Leaf implements Node extend type Query implements Node " ++
    "interface Node type Odd implements Query&Node"

def namedTwiceDefinitions : List Sdl.Definition :=
  [.type ⟨false, "Query", [], .object ["Node", "Gone"] []⟩, .type ⟨false, "Leaf", [], .interface ["Node"] []⟩,
    .type ⟨true, "Query", [], .object ["Node"] []⟩, .type ⟨false, "Node", [], .interface [] []⟩,
    .type ⟨false, "Odd", [], .object ["Query", "Node"] []⟩]

def namedTwiceQuery : TypeEntry := { TypeEntry.bare "Query" .object with interfaces := ["Node", "Gone", "Node"] }

def namedTwiceOdd : TypeEntry := { TypeEntry.bare "Odd" .object with interfaces := ["Query", "Node"] }

/-- The interface that names the other one is none of its objects, and the object that is named
    has none itself. -/
theorem implementations_listed_twice :
    ∃ schema node, Sdl.parse namedTwice = .ok namedTwiceDefinitions ∧ Schema.parse namedTwice = .ok schema ∧
      schema.type? "Node" = some node ∧ schema.type? "Query" = some namedTwiceQuery ∧
      schema.implementations node = [namedTwiceQuery, namedTwiceQuery, namedTwiceOdd] ∧
      schema.implementations namedTwiceQuery = [] ∧
      "Query" ∈ Sdl.interfacesOf "Odd" namedTwiceDefinitions := by
  have hread : Sdl.parse namedTwice = .ok namedTwiceDefinitions := eq_ok_of_toOption (by decide +kernel)
  obtain ⟨schema, node, h, hnode, hheld⟩ :=
    exists_type_of_read hread "Node"
      (fun s t => (t, s.type? "Query", s.types.values.filter (·.kind = .object)))
      (.bare "Node" .interface, some namedTwiceQuery, [namedTwiceQuery, namedTwiceOdd]) (by decide +kernel)
  obtain ⟨rfl, hrest⟩ := Prod.mk.inj hheld
  obtain ⟨hquery, hobjects⟩ := Prod.mk.inj hrest
  obtain ⟨hlisted, -, -⟩ := implementations_listed hread h (.bare "Node" .interface)
  obtain ⟨-, hnone, -⟩ := implementations_listed hread h namedTwiceQuery
  refine ⟨schema, _, hread, h, hnode, hquery, ?_, hnone (by decide), by decide +kernel⟩
  rw [hlisted rfl, hobjects]
  decide +kernel

end QueryCost
