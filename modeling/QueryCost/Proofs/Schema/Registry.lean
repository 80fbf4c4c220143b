/-
  QueryCost.Proofs.Schema.Registry — a registry knows every type by its own name.

  A definition makes or extends the entry of its own name, a merge leaves that name alone, and
  the built-in scalars are added under theirs. So in every schema that is read the name a type
  is looked up by is the name it has.

  - `selfNamed_add`: one more definition keeps the registry so, and `selfNamed_foldlM` any
    number of them.
  - `exists_draft_of_parse`: what a schema that is read takes over from its definitions.
  - `selfNamed_of_parse`: every schema that is read is so.
-/

import QueryCost.Proofs.Schema.Additions

namespace QueryCost

/-- Every type is held under its own name. -/
def SelfNamed (types : Table String TypeEntry) : Prop := ∀ name t, types.get? name = some t → t.name = name

section

variable {types : Table String TypeEntry}

theorem SelfNamed.insert (h : SelfNamed types) (t : TypeEntry) : SelfNamed (types.insert t.name t) := by
  intro name found hfound
  rw [Table.get?_insert] at hfound
  split at hfound
  · rename_i hname
    rw [← Option.some.inj hfound, hname]
  · exact h name found hfound

theorem SelfNamed.insertNew (h : SelfNamed types) (t : TypeEntry) : SelfNamed (types.insertNew t.name t) := by
  unfold Table.insertNew
  split
  · exact h
  · exact h.insert t

theorem SelfNamed.withBuiltins (h : SelfNamed types) : SelfNamed (withBuiltins types) := by
  unfold QueryCost.withBuiltins
  induction builtinScalars generalizing types with
  | nil => exact h
  | cons name rest ih => exact ih (h.insertNew (.bare name .scalar))

end

/-! ## Definitions -/

theorem selfNamed_addType {d d' : Draft} {t : Sdl.TypeDefinition} (hd : SelfNamed d.types)
    (hadd : d.addType t = .ok d') : SelfNamed d'.types := by
  obtain ⟨-, ⟨entry, hentry, -, rfl⟩ | ⟨-, rfl⟩⟩ := Draft.addType_cases hadd
  · have hname : entry.name = t.name := hd t.name entry hentry
    rw [← hname]
    exact hd.insert (entry.merge t.addition)
  · exact hd.insert ((TypeEntry.bare t.name t.body.kind).merge t.addition)

theorem selfNamed_add {d d' : Draft} {definition : Sdl.Definition} (hd : SelfNamed d.types)
    (hadd : d.add definition = .ok d') : SelfNamed d'.types := by
  cases definition with
  | schema _ roots =>
    cases hadd
    exact hd
  | type t => exact selfNamed_addType hd hadd
  | directive _ =>
    cases hadd
    exact hd

theorem selfNamed_foldlM {definitions : List Sdl.Definition} {d d' : Draft} (hd : SelfNamed d.types)
    (hadd : definitions.foldlM Draft.add d = .ok d') : SelfNamed d'.types := by
  induction definitions generalizing d with
  | nil =>
    cases hadd
    exact hd
  | cons definition rest ih =>
    rw [List.foldlM_cons] at hadd
    obtain ⟨next, hnext, hrest⟩ := exists_of_bind_ok hadd
    exact ih (selfNamed_add hd hnext) hrest

/-! ## Schemas -/

/-- What a text reads as is all the schema depends on. -/
theorem parse_of_read {parse : Sdl.Parser} {text : String} {definitions : List Sdl.Definition}
    (hread : parse text = .ok definitions) : Schema.parseWith parse text = Schema.ofDefinitions definitions := by
  rw [Schema.parseWith, hread]
  rfl

/-- Evaluating what is said of a type gives the schema and the type it is said of. -/
theorem exists_type_of_parse (text name : String) {β : Type} (f : Schema → TypeEntry → β) (b : β)
    (hf : ((Schema.parse text).toOption.bind fun s => (s.type? name).map (f s)) = some b) :
    ∃ s t, Schema.parse text = .ok s ∧ s.type? name = some t ∧ f s t = b := by
  obtain ⟨s, hs, hmap⟩ := Option.bind_eq_some_iff.mp hf
  obtain ⟨t, ht, hft⟩ := Option.map_eq_some_iff.mp hmap
  exact ⟨s, t, eq_ok_of_toOption hs, ht, hft⟩

/-- The same where it is known what the text reads as. -/
theorem exists_type_of_read {text : String} {definitions : List Sdl.Definition} (hread : Sdl.parse text = .ok definitions)
    (name : String) {β : Type} (f : Schema → TypeEntry → β) (b : β)
    (hf : ((Schema.ofDefinitions definitions).toOption.bind fun s => (s.type? name).map (f s)) = some b) :
    ∃ s t, Schema.parse text = .ok s ∧ s.type? name = some t ∧ f s t = b := by
  have hparse : Schema.parse text = Schema.ofDefinitions definitions := parse_of_read hread
  rw [← hparse] at hf
  exact exists_type_of_parse text name f b hf

/-- What a schema takes over from the definitions it is made of. -/
structure Schema.BuiltFrom (schema : Schema) (d : Draft) : Prop where
  types_eq : schema.types = withBuiltins d.types
  implementors_eq : schema.implementors = implementorIndex (withBuiltins d.types)
  query_eq : rootType (withBuiltins d.types) .query d.roots.query = .ok (some schema.queryType)
  mutation_eq : rootType (withBuiltins d.types) .mutation d.roots.mutation = .ok schema.mutationType
  subscription_eq : rootType (withBuiltins d.types) .subscription d.roots.subscription = .ok schema.subscriptionType
  analyzer_eq : schema.analyzer = none

theorem builtFrom_of_ofDraft {d : Draft} {schema : Schema} (h : Schema.ofDraft d = .ok schema) :
    schema.BuiltFrom d := by
  obtain ⟨query, hquery, h⟩ := exists_of_bind_ok h
  cases query with
  | none => cases h
  | some name =>
    dsimp only at h
    obtain ⟨queryType, hname, h⟩ := exists_of_bind_ok h
    obtain ⟨mutationType, hmutation, h⟩ := exists_of_bind_ok h
    obtain ⟨subscriptionType, hsubscription, h⟩ := exists_of_bind_ok h
    cases hname
    cases h
    -- the fields of the schema are read off first: comparing the registries would run them
    constructor <;> dsimp only
    · exact hquery
    · exact hmutation
    · exact hsubscription

/-- A schema that is read is made of the definitions its document holds. -/
theorem exists_draft_of_parse {parse : Sdl.Parser} {text : String} {schema : Schema}
    (h : Schema.parseWith parse text = .ok schema) :
    ∃ definitions d, parse text = .ok definitions ∧ definitions.foldlM Draft.add .empty = .ok d ∧
      schema.BuiltFrom d := by
  obtain ⟨definitions, hread, h⟩ := exists_of_bind_ok h
  obtain ⟨d, hd, h⟩ := exists_of_bind_ok h
  refine ⟨definitions, d, ?_, hd, builtFrom_of_ofDraft h⟩
  cases hparse : parse text with
  | error e =>
    rw [hparse] at hread
    cases hread
  | ok found =>
    rw [hparse] at hread
    cases hread
    rfl

/-- A schema that is read knows every type by its own name. -/
theorem selfNamed_of_parse {parse : Sdl.Parser} {text : String} {schema : Schema}
    (h : Schema.parseWith parse text = .ok schema) : SelfNamed schema.types := by
  obtain ⟨definitions, d, -, hd, hbuilt⟩ := exists_draft_of_parse h
  rw [hbuilt.types_eq]
  exact SelfNamed.withBuiltins (selfNamed_foldlM (d := Draft.empty) nofun hd)

end QueryCost
