/-
  QueryCost.Proofs.Schema.Contents — when what a type holds fits its kind.

  Members belong to unions, fields and interfaces to objects and interfaces. A definition has
  only what belongs to its own kind (`Sdl.TypeBody.fits_kind`), but an extension is merged into
  whatever has its name, and the kind stays that of the first definition. So what a type holds
  fits its kind exactly where nothing was merged into it that does not.

  - `contents_fit_iff`: the types whose contents fit, among them all that are extended by their
    own kind only.
  - `members_of_object`: an object with members.
-/

import QueryCost.Proofs.Schema.Merging

namespace QueryCost

/-- Members only on a union, fields and interfaces only on an object or an interface. -/
def TypeEntry.Fits (t : TypeEntry) : Prop :=
  (t.kind ≠ .union → t.members = []) ∧
    (t.kind ≠ .object → t.kind ≠ .interface → t.fields.keys = [] ∧ t.interfaces = [])

/-- The same of a definition that is merged into a type of this kind. -/
def Sdl.TypeBody.Fits (body : Sdl.TypeBody) (kind : TypeKind) : Prop :=
  (kind ≠ .union → body.members = []) ∧
    (kind ≠ .object → kind ≠ .interface → body.fields = [] ∧ body.interfaces = [])

instance (t : TypeEntry) : Decidable t.Fits :=
  inferInstanceAs (Decidable ((t.kind ≠ .union → t.members = []) ∧
    (t.kind ≠ .object → t.kind ≠ .interface → t.fields.keys = [] ∧ t.interfaces = [])))

instance (body : Sdl.TypeBody) (kind : TypeKind) : Decidable (body.Fits kind) :=
  inferInstanceAs (Decidable ((kind ≠ .union → body.members = []) ∧
    (kind ≠ .object → kind ≠ .interface → body.fields = [] ∧ body.interfaces = [])))

theorem Sdl.TypeBody.fits_kind (body : Sdl.TypeBody) : body.Fits body.kind := by
  refine ⟨fun hunion => members_eq_iff.mpr (.inr ⟨hunion, rfl⟩), fun hobject hinterface => ?_⟩
  cases body with
  | object => exact absurd rfl hobject
  | interface => exact absurd rfl hinterface
  | _ => exact ⟨rfl, rfl⟩

theorem fits_bare (name : String) (kind : TypeKind) : (TypeEntry.bare name kind).Fits :=
  ⟨fun _ => rfl, fun _ _ => ⟨rfl, rfl⟩⟩

namespace TypeEntry.MergedFrom

variable {t : TypeEntry} {parts : List Sdl.TypeDefinition}

theorem members_eq_nil_iff (h : t.MergedFrom parts) : t.members = [] ↔ ∀ part ∈ parts, part.body.members = [] := by
  rw [h.members_eq, List.flatMap_eq_nil_iff]

theorem interfaces_eq_nil_iff (h : t.MergedFrom parts) :
    t.interfaces = [] ↔ ∀ part ∈ parts, part.body.interfaces = [] := by
  rw [h.interfaces_eq, List.flatMap_eq_nil_iff]

theorem fields_eq_nil_iff (h : t.MergedFrom parts) :
    t.fields.keys = [] ↔ ∀ part ∈ parts, part.body.fields = [] := by
  have hnames : (parts.flatMap (·.fieldEntries)).map Prod.fst = [] ↔ ∀ part ∈ parts, part.body.fields = [] := by
    rw [List.map_eq_nil_iff, List.flatMap_eq_nil_iff]
    simp only [Sdl.TypeDefinition.fieldEntries, List.map_eq_nil_iff]
  rw [h.fields.keys_eq, ← hnames, List.eq_nil_iff_forall_not_mem, List.eq_nil_iff_forall_not_mem]
  simp only [List.mem_eraseDups]

/-- A type fits its kind exactly where all that is merged into it does. -/
theorem fits_iff (h : t.MergedFrom parts) : t.Fits ↔ ∀ part ∈ parts, part.body.Fits t.kind := by
  rw [TypeEntry.Fits, h.members_eq_nil_iff, h.fields_eq_nil_iff, h.interfaces_eq_nil_iff]
  constructor
  · rintro ⟨hmembers, hfields⟩ part hpart
    exact ⟨fun hunion => hmembers hunion part hpart, fun hobject hinterface =>
      ⟨(hfields hobject hinterface).1 part hpart, (hfields hobject hinterface).2 part hpart⟩⟩
  · intro hparts
    exact ⟨fun hunion part hpart => (hparts part hpart).1 hunion, fun hobject hinterface =>
      ⟨fun part hpart => ((hparts part hpart).2 hobject hinterface).1,
        fun part hpart => ((hparts part hpart).2 hobject hinterface).2⟩⟩

end TypeEntry.MergedFrom

open Sdl (definitionsOf)

/-- What a type holds fits its kind exactly where all definitions and extensions of its name do,
    and so wherever they are of the kind of the first one. -/
theorem contents_fit_iff {parse : Sdl.Parser} {text : String} {definitions : List Sdl.Definition} {schema : Schema}
    (hread : parse text = .ok definitions) (h : Schema.parseWith parse text = .ok schema) {name : String}
    {t : TypeEntry} (ht : schema.type? name = some t) :
    (t.Fits ↔ ∀ part ∈ definitionsOf name definitions, part.body.Fits t.kind) ∧
      ((∀ part ∈ definitionsOf name definitions, part.body.kind = t.kind) → t.Fits) := by
  have hiff : t.Fits ↔ ∀ part ∈ definitionsOf name definitions, part.body.Fits t.kind := by
    rcases merged_or_bare hread h ht with ⟨-, hmerged⟩ | ⟨hname, rfl⟩
    · exact hmerged.fits_iff
    · rw [Sdl.definitionsOf_eq_nil_iff.mpr hname]
      exact iff_of_true (fits_bare name .scalar) nofun
  refine ⟨hiff, fun hkinds => hiff.mpr fun part hpart => ?_⟩
  rw [← hkinds part hpart]
  exact part.body.fits_kind

/-- An object extended by its own kind. -/
def extendedObject : String := "type Query{a:Int}extend type Query implements I{b:Int}"

def extendedObjectDefinitions : List Sdl.Definition :=
  [.type ⟨false, "Query", [], .object [] [⟨"a", [], .named "Int" true, []⟩]⟩,
    .type ⟨true, "Query", [], .object ["I"] [⟨"b", [], .named "Int" true, []⟩]⟩]

theorem contents_fit_iff_object :
    ∃ schema query, Sdl.parse extendedObject = .ok extendedObjectDefinitions ∧
      Schema.parse extendedObject = .ok schema ∧ schema.type? "Query" = some query ∧
      query.kind = .object ∧ query.Fits := by
  have hread : Sdl.parse extendedObject = .ok extendedObjectDefinitions := eq_ok_of_toOption (by decide +kernel)
  obtain ⟨schema, query, h, hquery, hkind⟩ :=
    exists_type_of_read hread "Query" (fun _ t => t.kind) .object (by decide +kernel)
  have hparts : ∀ part ∈ definitionsOf "Query" extendedObjectDefinitions, part.body.kind = query.kind := by
    rw [hkind]
    decide +kernel
  exact ⟨schema, query, hread, h, hquery, hkind, (contents_fit_iff hread h hquery).2 hparts⟩

/-- An object extended as a union. -/
def unionOverObject : String := "type Query{a:Int}extend union Query=A"

/-- An extension of another kind leaves the object with members. -/
theorem members_of_object :
    ¬ ∀ (text : String) (schema : Schema), Schema.parse text = .ok schema →
      ∀ name t, schema.type? name = some t → t.Fits := by
  intro hfits
  have hread : Sdl.parse unionOverObject =
      .ok [.type ⟨false, "Query", [], .object [] [⟨"a", [], .named "Int" true, []⟩]⟩,
        .type ⟨true, "Query", [], .union ["A"]⟩] := eq_ok_of_toOption (by decide +kernel)
  obtain ⟨schema, query, h, hquery, hheld⟩ :=
    exists_type_of_read hread "Query" (fun _ t => (t.kind, t.members)) (.object, ["A"]) (by decide +kernel)
  obtain ⟨hkind, hmembers⟩ := Prod.mk.inj hheld
  have hnone := (hfits unionOverObject schema h "Query" query hquery).1 (by rw [hkind]; decide)
  rw [hmembers] at hnone
  cases hnone

end QueryCost
