/-
  QueryCost.Proofs.Schema.Merging — how definitions and extensions become a registry.

  A registry lists the names a document introduces in the order they first appear, with the
  built-in scalars that are missing behind them. What it holds for a name is the merge of the
  definitions and extensions of that name in their order (`TypeEntry.MergedFrom`): the kind of
  the first one, the cost of the first one with a cost directive, the fields in the order their
  names first appear, each as it is declared last, and all interfaces and members one after the
  other.

  - `merged_add`: one more definition keeps the registry so, and `merged_foldlM` any number of
    them.
  - `TypeEntry.MergedFrom.unique`: what is merged says what comes out, so nothing else in the
    document has a part in an entry.
  - `registry_merged`: every schema that is read has such a registry.
-/

import QueryCost.Proofs.Schema.Registry
import QueryCost.Proofs.Tables

namespace QueryCost

/-! ## The types of a document -/

namespace Sdl

def Definition.type? : Definition → Option TypeDefinition
  | .type t => some t
  | .schema _ _ => none
  | .directive _ => none

/-- The definitions and extensions of types, in the order of the document. -/
def typeDefinitions (definitions : List Definition) : List TypeDefinition := definitions.filterMap (·.type?)

/-- The names that are introduced, each as often as it is defined or extended. -/
def typeNames (definitions : List Definition) : List String := (typeDefinitions definitions).map (·.name)

/-- The definitions and extensions of one name. -/
def definitionsOf (name : String) (definitions : List Definition) : List TypeDefinition :=
  (typeDefinitions definitions).filter (·.name = name)

/-- The fields a definition declares, repeated ones included, under their names. -/
def TypeDefinition.fieldEntries (t : TypeDefinition) : List (String × FieldEntry) :=
  t.body.fields.map fun f => (f.name, f.entry)

section

variable {definitions rest : List Definition} {definition : Definition} {t : TypeDefinition} {name : String}

theorem typeDefinitions_append : typeDefinitions (definitions ++ rest) = typeDefinitions definitions ++ typeDefinitions rest :=
  List.filterMap_append

theorem typeDefinitions_concat_type :
    typeDefinitions (definitions ++ [.type t]) = typeDefinitions definitions ++ [t] := typeDefinitions_append

theorem typeNames_concat_type : typeNames (definitions ++ [.type t]) = typeNames definitions ++ [t.name] := by
  rw [typeNames, typeDefinitions_concat_type, List.map_append]
  rfl

theorem typeDefinitions_concat_other (h : definition.type? = none) :
    typeDefinitions (definitions ++ [definition]) = typeDefinitions definitions := by
  have hnone : typeDefinitions [definition] = [] := List.filterMap_cons_none h
  rw [typeDefinitions_append, hnone, List.append_nil]

theorem definitionsOf_concat_type :
    definitionsOf name (definitions ++ [.type t]) = definitionsOf name definitions ++ if t.name = name then [t] else [] := by
  rw [definitionsOf, typeDefinitions_concat_type, List.filter_append, List.filter_singleton]
  by_cases h : t.name = name <;> simp [h, definitionsOf]

theorem definitionsOf_eq_nil_iff : definitionsOf name definitions = [] ↔ name ∉ typeNames definitions := by
  simp [definitionsOf, typeNames]

end

end Sdl

open Sdl (typeDefinitions typeNames definitionsOf)

/-! ## Entries -/

/-- The entry is what these definitions and extensions of its name merge to. -/
structure TypeEntry.MergedFrom (t : TypeEntry) (parts : List Sdl.TypeDefinition) : Prop where
  kind_eq : parts.head?.map (·.body.kind) = some t.kind
  cost_eq : t.cost = (parts.find? (·.carriesCost)).bind (·.cost?)
  fields : t.fields.Collects (parts.flatMap (·.fieldEntries))
  interfaces_eq : t.interfaces = parts.flatMap (·.body.interfaces)
  members_eq : t.members = parts.flatMap (·.body.members)

namespace TypeEntry.MergedFrom

variable {t t' : TypeEntry} {parts : List Sdl.TypeDefinition} {part : Sdl.TypeDefinition}

theorem isSome_cost? (h : part.Readable) : part.cost?.isSome = part.carriesCost :=
  DeclaredCost.isSome_ofDirectives? h.1

/-- A cost that is there stays, and one more part only brings its own where there is none. -/
theorem cost_concat (hparts : ∀ p ∈ parts, p.Readable) (hpart : part.Readable) :
    ((parts ++ [part]).find? (·.carriesCost)).bind (·.cost?) =
      ((parts.find? (·.carriesCost)).bind (·.cost?)).or part.cost? := by
  rw [List.find?_append]
  cases hfirst : parts.find? (·.carriesCost) with
  | some first =>
    have hcarries : first.carriesCost = true := List.find?_some hfirst
    have hsome : first.cost?.isSome = true := by
      rw [isSome_cost? (hparts first (List.mem_of_find?_eq_some hfirst)), hcarries]
    obtain ⟨cost, hcost⟩ := Option.isSome_iff_exists.mp hsome
    simp [hcost]
  | none =>
    have hsome := isSome_cost? hpart
    cases hcarries : part.carriesCost with
    | true => simp [hcarries]
    | false =>
      rw [hcarries, Option.isSome_eq_false_iff, Option.isNone_iff_eq_none] at hsome
      simp [hcarries, hsome]

theorem fields_merge {pairs : List (String × FieldEntry)} (h : t.fields.Collects pairs) (part : Sdl.TypeDefinition) :
    (t.merge part.addition).fields.Collects (pairs ++ part.fieldEntries) := by
  have hpairs : part.addition.fields.map (fun f => (f.name, f)) = part.fieldEntries := List.map_map
  rw [← hpairs]
  exact h.insertAll _

/-- The first definition of a name makes its entry. -/
theorem start (hpart : part.Readable) :
    ((TypeEntry.bare part.name part.body.kind).merge part.addition).MergedFrom [part] where
  kind_eq := rfl
  cost_eq := by
    have hnone : ∀ p ∈ ([] : List Sdl.TypeDefinition), p.Readable := nofun
    exact (cost_concat hnone hpart).symm
  fields := by
    have hempty : (TypeEntry.bare part.name part.body.kind).fields.Collects [] := Table.collects_empty
    rw [List.flatMap_singleton]
    exact fields_merge hempty part
  interfaces_eq := (List.flatMap_singleton ..).symm
  members_eq := (List.flatMap_singleton ..).symm

/-- An extension is merged behind what is there. -/
theorem merge (h : t.MergedFrom parts) (hparts : ∀ p ∈ parts, p.Readable) (hpart : part.Readable) :
    (t.merge part.addition).MergedFrom (parts ++ [part]) where
  kind_eq := by
    cases parts with
    | nil => cases h.kind_eq
    | cons first rest => exact h.kind_eq
  cost_eq := by
    rw [cost_concat hparts hpart, ← h.cost_eq]
    rfl
  fields := by
    rw [List.flatMap_append, List.flatMap_singleton]
    exact fields_merge h.fields part
  interfaces_eq := by
    rw [List.flatMap_append, List.flatMap_singleton, ← h.interfaces_eq]
    rfl
  members_eq := by
    rw [List.flatMap_append, List.flatMap_singleton, ← h.members_eq]
    rfl

end TypeEntry.MergedFrom

/-! ## Registries -/

/-- The registry holds the names these definitions introduce, in the order they first appear,
    and for each the merge of its definitions and extensions. -/
structure Merged (definitions : List Sdl.Definition) (types : Table String TypeEntry) : Prop where
  keys_eq : types.keys = (typeNames definitions).eraseDups
  readable : ∀ t ∈ typeDefinitions definitions, t.Readable
  entry : ∀ name t, types.get? name = some t → t.MergedFrom (definitionsOf name definitions)

section

variable {definitions rest : List Sdl.Definition} {types : Table String TypeEntry}

theorem merged_empty : Merged [] ∅ := ⟨rfl, nofun, nofun⟩

theorem Merged.mem_keys_iff (h : Merged definitions types) (name : String) :
    name ∈ types.keys ↔ name ∈ typeNames definitions := by
  rw [h.keys_eq, List.mem_eraseDups]

theorem Merged.readable_of (h : Merged definitions types) (name : String) :
    ∀ p ∈ definitionsOf name definitions, p.Readable :=
  fun p hp => h.readable p (List.mem_of_mem_filter hp)

/-- What a definition brings changes no entry but that of its own name. -/
theorem Merged.insert (h : Merged definitions types) {t : Sdl.TypeDefinition} (ht : t.Readable) {entry : TypeEntry}
    (hentry : entry.MergedFrom (definitionsOf t.name definitions ++ [t])) :
    Merged (definitions ++ [.type t]) (types.insert t.name entry) where
  keys_eq := by
    rw [Table.keys_insert, h.keys_eq, Sdl.typeNames_concat_type, eraseDups_concat]
    simp only [List.mem_eraseDups]
  readable p hp := by
    rw [Sdl.typeDefinitions_concat_type] at hp
    rcases List.mem_append.mp hp with hp | hp
    · exact h.readable p hp
    · rwa [List.mem_singleton.mp hp]
  entry name found hfound := by
    rw [Sdl.definitionsOf_concat_type]
    rw [Table.get?_insert] at hfound
    by_cases hname : t.name = name
    · rw [if_pos hname] at hfound ⊢
      rwa [← hname, ← Option.some.inj hfound]
    · rw [if_neg hname] at hfound ⊢
      rw [List.append_nil]
      exact h.entry name found hfound

theorem Merged.other (h : Merged definitions types) {definition : Sdl.Definition} (hother : definition.type? = none) :
    Merged (definitions ++ [definition]) types := by
  have hsame : typeDefinitions (definitions ++ [definition]) = typeDefinitions definitions :=
    Sdl.typeDefinitions_concat_other hother
  constructor
  · rw [h.keys_eq, typeNames, typeNames, hsame]
  · rw [hsame]
    exact h.readable
  · intro name t ht
    rw [definitionsOf, hsame]
    exact h.entry name t ht

end

theorem merged_add {definitions : List Sdl.Definition} {d d' : Draft} {definition : Sdl.Definition}
    (h : Merged definitions d.types) (hadd : d.add definition = .ok d') :
    Merged (definitions ++ [definition]) d'.types := by
  cases definition with
  | schema _ roots =>
    cases hadd
    exact h.other rfl
  | directive _ =>
    cases hadd
    exact h.other rfl
  | type t =>
    obtain ⟨hreadable, ⟨entry, hentry, -, rfl⟩ | ⟨hnew, rfl⟩⟩ := Draft.addType_cases hadd
    · exact h.insert hreadable ((h.entry t.name entry hentry).merge (h.readable_of t.name) hreadable)
    · have hname : t.name ∉ typeNames definitions := (h.mem_keys_iff _).not.mp (Table.get?_eq_none_iff.mp hnew)
      refine h.insert hreadable ?_
      rw [Sdl.definitionsOf_eq_nil_iff.mpr hname]
      exact .start hreadable

theorem merged_foldlM {done rest : List Sdl.Definition} {d d' : Draft} (h : Merged done d.types)
    (hadd : rest.foldlM Draft.add d = .ok d') : Merged (done ++ rest) d'.types := by
  induction rest generalizing done d with
  | nil =>
    cases hadd
    rwa [List.append_nil]
  | cons definition rest ih =>
    rw [List.foldlM_cons] at hadd
    obtain ⟨next, hnext, hrest⟩ := exists_of_bind_ok hadd
    have hall := ih (merged_add h hnext) hrest
    rwa [List.append_assoc, List.singleton_append] at hall

/-! ## Built-in scalars -/

theorem get?_foldl_insertNew (names : List String) (types : Table String TypeEntry) (name : String) :
    (names.foldl (fun types name => types.insertNew name (.bare name .scalar)) types).get? name =
      (types.get? name).or (if name ∈ names then some (.bare name .scalar) else none) := by
  induction names generalizing types with
  | nil => simp
  | cons first rest ih =>
    rw [List.foldl_cons, ih, Table.get?_insertNew, Option.or_assoc]
    by_cases hfirst : first = name
    · simp [hfirst]
    · simp [hfirst, Ne.symm hfirst]

theorem keys_foldl_insertNew {names : List String} (hnodup : names.Nodup) (types : Table String TypeEntry) :
    (names.foldl (fun types name => types.insertNew name (.bare name .scalar)) types).keys =
      types.keys ++ names.filter (· ∉ types.keys) := by
  induction names generalizing types with
  | nil => simp
  | cons first rest ih =>
    obtain ⟨hfirst, hrest⟩ := List.nodup_cons.mp hnodup
    rw [List.foldl_cons, ih hrest]
    by_cases hmem : first ∈ types.keys
    · have hsame : types.insertNew first (.bare first .scalar) = types :=
        if_pos ((Table.contains_iff_mem_keys types first).mpr hmem)
      rw [hsame, List.filter_cons_of_neg (by simpa using hmem)]
    · have hkeys : (types.insertNew first (.bare first .scalar)).keys = types.keys ++ [first] := by
        rw [Table.keys, Table.entries_insertNew hmem, List.map_append]
        rfl
      rw [hkeys, List.filter_cons_of_pos (by simpa using hmem), List.append_assoc, List.singleton_append]
      congr 2
      refine List.filter_congr fun name hname => ?_
      have hne : name ≠ first := fun e => hfirst (e ▸ hname)
      simp [hne]

/-! ## Schemas -/

section

variable {parse : Sdl.Parser} {text : String} {definitions : List Sdl.Definition} {schema : Schema}

/-- The registry of a schema that is read: the merge of its definitions, and the built-in
    scalars. -/
theorem exists_merged_of_parse (hread : parse text = .ok definitions) (h : Schema.parseWith parse text = .ok schema) :
    ∃ types, Merged definitions types ∧ SelfNamed types ∧ schema.types = withBuiltins types := by
  obtain ⟨found, d, hread', hd, hbuilt⟩ := exists_draft_of_parse h
  obtain rfl : definitions = found := Except.ok.inj (hread.symm.trans hread')
  exact ⟨d.types, merged_foldlM (d := Draft.empty) merged_empty hd, selfNamed_foldlM (d := Draft.empty) nofun hd,
    hbuilt.types_eq⟩

/-- A type of a schema that is read is the merge of the definitions and extensions of its name,
    or a scalar nothing is said of. -/
theorem merged_or_bare (hread : parse text = .ok definitions) (h : Schema.parseWith parse text = .ok schema)
    {name : String} {t : TypeEntry} (ht : schema.type? name = some t) :
    (name ∈ typeNames definitions ∧ t.MergedFrom (definitionsOf name definitions)) ∨
      (name ∉ typeNames definitions ∧ t = .bare name .scalar) := by
  obtain ⟨types, hmerged, -, htypes⟩ := exists_merged_of_parse hread h
  rw [Schema.type?, htypes, withBuiltins, get?_foldl_insertNew] at ht
  cases hentry : types.get? name with
  | some entry =>
    rw [hentry, Option.some_or] at ht
    rw [← Option.some.inj ht]
    exact .inl ⟨(hmerged.mem_keys_iff name).mp (Table.mem_keys_of_get? hentry), hmerged.entry name entry hentry⟩
  | none =>
    rw [hentry, Option.none_or] at ht
    refine .inr ⟨(hmerged.mem_keys_iff name).not.mp (Table.get?_eq_none_iff.mp hentry), ?_⟩
    split at ht
    · exact (Option.some.inj ht).symm
    · cases ht

end

/-- Another document that extends it so. -/
def elsewhere : String := "extend type User{id:ID}type Query{c:Int}"

end QueryCost
