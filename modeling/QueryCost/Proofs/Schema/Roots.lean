/-
  QueryCost.Proofs.Schema.Roots — the root types of a document.

  A document may name the root type of a kind of operation in its schema definitions and their
  extensions, as often as it likes; the last name counts. A type that is named has to be among
  the types of the document, wherever it is defined, or a built-in scalar. Where no type is
  named the one with the conventional name is taken, and only queries need it. The roots are
  looked up queries first, mutations next, and the first that is missing is the error.

  - `knows_conventionalRoot_iff`: what is known under a conventional name is of the document.
  - `named_foldlM`: of the names given for a root the last is left when all definitions are in.
  - `rootType_eq_error_iff`, `rootType_eq_none_iff`, `rootType_eq_some_iff`: what the lookup of one
    root comes to; `ofDraft_fault_iff`: what that of all three fails with (`RootFault`), and
    `no_rootFault_iff`: when it does not fail.
  - `BuiltFrom.rooted`: the root types of a schema are types of it (`Schema.Rooted`).
  - `roots_closed`: what documents are refused for, and which root types the others have.
-/

import QueryCost.Proofs.Schema.Duplicates

namespace QueryCost

namespace Sdl

/-- The name that is given for the root type of a kind. -/
def RootNames.named (roots : RootNames) : OperationKind → Option String
  | .query => roots.query
  | .mutation => roots.mutation
  | .subscription => roots.subscription

/-- The name a schema definition or extension gives for the root type of a kind. -/
def Definition.root? (kind : OperationKind) : Definition → Option String
  | .schema _ roots => roots.named kind
  | .type _ => none
  | .directive _ => none

/-- The name given last for the root type of a kind. -/
def declaredRoot (definitions : List Definition) (kind : OperationKind) : Option String :=
  (definitions.filterMap (·.root? kind)).getLast?

/-- The document defines or extends a type of this name, or every schema has it. -/
def Knows (definitions : List Definition) (name : String) : Prop :=
  name ∈ typeNames definitions ∨ name ∈ builtinScalars

instance (definitions : List Definition) (name : String) : Decidable (Knows definitions name) :=
  inferInstanceAs (Decidable (name ∈ typeNames definitions ∨ name ∈ builtinScalars))

end Sdl

open Sdl (typeDefinitions typeNames declaredRoot Allowed Knows)

/-- No built-in scalar has a conventional name, so a root type that is taken by convention is one
    that the document defines or extends. -/
theorem knows_conventionalRoot_iff {definitions : List Sdl.Definition} {kind : OperationKind} :
    Knows definitions (conventionalRoot kind) ↔ conventionalRoot kind ∈ typeNames definitions := by
  have hscalar : conventionalRoot kind ∉ builtinScalars := by
    rcases conventionalRoot_eq_iff.mp rfl with ⟨-, hname⟩ | ⟨-, hname⟩ | ⟨-, hname⟩ <;>
      rw [hname] <;> decide
  exact or_iff_left hscalar

/-- The name a root type has, by declaration or by convention. -/
def rootName (declared : OperationKind → Option String) (kind : OperationKind) : String :=
  (declared kind).getD (conventionalRoot kind)

/-- What is wrong with the root types first, when these are the types that are known and the
    names that are declared. -/
inductive RootFault (known : String → Prop) (declared : OperationKind → Option String) : SchemaError → Prop
  | unknownQuery {name : String} (hdeclared : declared .query = some name) (hname : ¬ known name) :
      RootFault known declared (.unknownRootType .query name)
  | missingQuery (hdeclared : declared .query = none) (hname : ¬ known (conventionalRoot .query)) :
      RootFault known declared .missingQueryType
  | unknownMutation {name : String} (hquery : known (rootName declared .query))
      (hdeclared : declared .mutation = some name) (hname : ¬ known name) :
      RootFault known declared (.unknownRootType .mutation name)
  | unknownSubscription {name : String} (hquery : known (rootName declared .query))
      (hmutation : ∀ mutation ∈ declared .mutation, known mutation)
      (hdeclared : declared .subscription = some name) (hname : ¬ known name) :
      RootFault known declared (.unknownRootType .subscription name)

/-- Nothing is wrong where there is a query type and all types that are declared are known. -/
theorem no_rootFault_iff {known : String → Prop} {declared : OperationKind → Option String} :
    (∀ e, ¬ RootFault known declared e) ↔
      known (rootName declared .query) ∧ ∀ kind, ∀ name ∈ declared kind, known name := by
  constructor
  · intro h
    have hquery : known (rootName declared .query) := by
      by_contra hname
      cases hdeclared : declared .query with
      | none =>
        rw [rootName, hdeclared] at hname
        exact h _ (.missingQuery hdeclared hname)
      | some name =>
        rw [rootName, hdeclared] at hname
        exact h _ (.unknownQuery hdeclared hname)
    have hmutation : ∀ name ∈ declared .mutation, known name := by
      intro name hdeclared
      by_contra hname
      exact h _ (.unknownMutation hquery hdeclared hname)
    refine ⟨hquery, fun kind name hdeclared => ?_⟩
    cases kind with
    | query => rwa [rootName, hdeclared] at hquery
    | mutation => exact hmutation name hdeclared
    | subscription =>
      by_contra hname
      exact h _ (.unknownSubscription hquery hmutation hdeclared hname)
  · rintro ⟨hquery, hnames⟩ e h
    cases h with
    | unknownQuery hdeclared hname => exact hname (hnames .query _ hdeclared)
    | missingQuery hdeclared hname =>
      rw [rootName, hdeclared] at hquery
      exact hname hquery
    | unknownMutation _ hdeclared hname => exact hname (hnames .mutation _ hdeclared)
    | unknownSubscription _ _ hdeclared hname => exact hname (hnames .subscription _ hdeclared)

/-! ## Declared names -/

theorem named_addRoots (d : Draft) (roots : Sdl.RootNames) (kind : OperationKind) :
    (d.addRoots roots).roots.named kind = (roots.named kind).or (d.roots.named kind) := by
  cases kind <;> rfl

theorem roots_addType {d d' : Draft} {t : Sdl.TypeDefinition} (h : d.addType t = .ok d') : d'.roots = d.roots := by
  obtain ⟨-, ⟨entry, -, -, rfl⟩ | ⟨-, rfl⟩⟩ := Draft.addType_cases h <;> rfl

/-- A definition gives a name or leaves the one there is. -/
theorem named_add {d d' : Draft} {definition : Sdl.Definition} (h : d.add definition = .ok d') (kind : OperationKind) :
    d'.roots.named kind = (definition.root? kind).or (d.roots.named kind) := by
  cases definition with
  | schema extend roots =>
    cases h
    exact named_addRoots d roots kind
  | type t => rw [roots_addType h, Sdl.Definition.root?, Option.none_or]
  | directive name =>
    cases h
    rfl

theorem named_foldlM {definitions : List Sdl.Definition} {d d' : Draft} (h : definitions.foldlM Draft.add d = .ok d')
    (kind : OperationKind) : d'.roots.named kind = (declaredRoot definitions kind).or (d.roots.named kind) := by
  induction definitions generalizing d with
  | nil =>
    cases h
    rfl
  | cons definition rest ih =>
    rw [List.foldlM_cons] at h
    obtain ⟨next, hnext, hrest⟩ := exists_of_bind_ok h
    rw [ih hrest, named_add hnext, declaredRoot, declaredRoot, getLast?_filterMap_cons_or]

/-! ## Known types -/

theorem contains_withBuiltins {types : Table String TypeEntry} {name : String} :
    (withBuiltins types).contains name = true ↔ name ∈ types.keys ∨ name ∈ builtinScalars := by
  rw [Table.contains_iff_mem_keys, withBuiltins, keys_foldl_insertNew (by decide), List.mem_append, List.mem_filter]
  by_cases h : name ∈ types.keys <;> simp [h]

/-! ## The lookup -/

section

variable {types : Table String TypeEntry} {kind : OperationKind} {declared : Option String}

theorem rootType_eq_error_iff {e : SchemaError} :
    rootType types kind declared = .error e ↔
      ∃ name, declared = some name ∧ ¬ types.contains name = true ∧ e = .unknownRootType kind name := by
  cases declared with
  | none => simp [rootType]
  | some name => cases hname : types.contains name <;> simp [rootType, hname, @eq_comm _ e]

theorem rootType_eq_none_iff :
    rootType types kind declared = .ok none ↔ declared = none ∧ ¬ types.contains (conventionalRoot kind) = true := by
  cases declared with
  | none => simp [rootType]
  | some name => cases hname : types.contains name <;> simp [rootType, hname]

theorem rootType_eq_some_iff {name : String} :
    rootType types kind declared = .ok (some name) ↔
      name = declared.getD (conventionalRoot kind) ∧ types.contains name = true := by
  cases declared with
  | none =>
    simp only [rootType, Except.ok.injEq, Option.ite_none_right_eq_some, Option.some.injEq, Option.getD_none]
    constructor
    · rintro ⟨hname, rfl⟩
      exact ⟨rfl, hname⟩
    · rintro ⟨rfl, hname⟩
      exact ⟨hname, rfl⟩
  | some root =>
    simp only [rootType, Option.getD_some]
    split
    · rename_i hroot
      rw [Except.ok.injEq, Option.some.injEq, eq_comm]
      exact (and_iff_left_of_imp fun h => h ▸ hroot).symm
    · rename_i hroot
      constructor
      · intro h
        cases h
      · rintro ⟨rfl, h⟩
        exact absurd h hroot

/-- A root can be looked up when the name that is declared for it is there. -/
theorem exists_rootType_iff :
    (∃ root, rootType types kind declared = .ok root) ↔ ∀ name ∈ declared, types.contains name = true := by
  cases declared with
  | none => simp [rootType]
  | some name => cases hname : types.contains name <;> simp [rootType, hname]

end

/-- The roots are looked up one after the other. -/
theorem ofDraft_eq_error_iff {d : Draft} {e : SchemaError} :
    Schema.ofDraft d = .error e ↔
      rootType (withBuiltins d.types) .query (d.roots.named .query) = .error e ∨
      (rootType (withBuiltins d.types) .query (d.roots.named .query) = .ok none ∧ e = .missingQueryType) ∨
      (∃ name, rootType (withBuiltins d.types) .query (d.roots.named .query) = .ok (some name)) ∧
        (rootType (withBuiltins d.types) .mutation (d.roots.named .mutation) = .error e ∨
          (∃ name, rootType (withBuiltins d.types) .mutation (d.roots.named .mutation) = .ok name) ∧
            rootType (withBuiltins d.types) .subscription (d.roots.named .subscription) = .error e) := by
  simp only [Schema.ofDraft, Sdl.RootNames.named]
  cases hquery : rootType (withBuiltins d.types) .query d.roots.query with
  | error e' => simp [bind_eq_error_iff]
  | ok root =>
    cases root with
    | none => simp [bind_eq_error_iff, @eq_comm _ e]
    | some name =>
      cases hmutation : rootType (withBuiltins d.types) .mutation d.roots.mutation with
      | error e' => simp [bind_eq_error_iff]
      | ok mutation =>
        cases hsubscription : rootType (withBuiltins d.types) .subscription d.roots.subscription <;>
          simp [bind_eq_error_iff]

/-- What is wrong with the roots of a draft. -/
theorem ofDraft_fault_iff {d : Draft} {e : SchemaError} :
    Schema.ofDraft d = .error e ↔ RootFault (fun name => (withBuiltins d.types).contains name = true) d.roots.named e := by
  simp only [ofDraft_eq_error_iff, rootType_eq_error_iff, rootType_eq_none_iff, rootType_eq_some_iff,
    exists_rootType_iff, exists_eq_left]
  constructor
  · rintro (⟨name, hdeclared, hname, rfl⟩ | ⟨⟨hdeclared, hname⟩, rfl⟩ | ⟨hquery, h⟩)
    · exact .unknownQuery hdeclared hname
    · exact .missingQuery hdeclared hname
    · rcases h with ⟨name, hdeclared, hname, rfl⟩ | ⟨hmutation, name, hdeclared, hname, rfl⟩
      · exact .unknownMutation hquery hdeclared hname
      · exact .unknownSubscription hquery hmutation hdeclared hname
  · intro h
    cases h with
    | unknownQuery hdeclared hname => exact .inl ⟨_, hdeclared, hname, rfl⟩
    | missingQuery hdeclared hname => exact .inr (.inl ⟨⟨hdeclared, hname⟩, rfl⟩)
    | unknownMutation hquery hdeclared hname => exact .inr (.inr ⟨hquery, .inl ⟨_, hdeclared, hname, rfl⟩⟩)
    | unknownSubscription hquery hmutation hdeclared hname =>
      exact .inr (.inr ⟨hquery, .inr ⟨hmutation, _, hdeclared, hname, rfl⟩⟩)

/-! ## Schemas -/

namespace Schema

/-- The name of the root type of a kind. -/
def rootName? (schema : Schema) : OperationKind → Option String
  | .query => some schema.queryType
  | .mutation => schema.mutationType
  | .subscription => schema.subscriptionType

theorem root?_eq (schema : Schema) (kind : OperationKind) :
    schema.root? kind = (schema.rootName? kind).bind schema.type? := by
  cases kind <;> rfl

/-- The root types are types of the schema: those that are declared, and where none is declared
    the one with the conventional name, if there is one. -/
structure Rooted (schema : Schema) (declared : OperationKind → Option String) : Prop where
  query : (schema.root? .query).isSome = true
  resolved : ∀ kind, ∀ name ∈ schema.rootName? kind, (schema.type? name).isSome = true
  of_declared : ∀ kind, (declared kind).isSome = true → (schema.root? kind).isSome = true
  root_eq : ∀ kind, schema.root? kind = schema.type? (rootName declared kind)

section

variable {schema : Schema} {d : Draft} (h : schema.BuiltFrom d) {kind : OperationKind}
include h

theorem BuiltFrom.rootType_eq (kind : OperationKind) :
    rootType (withBuiltins d.types) kind (d.roots.named kind) = .ok (schema.rootName? kind) := by
  cases kind with
  | query => exact h.query_eq
  | mutation => exact h.mutation_eq
  | subscription => exact h.subscription_eq

theorem BuiltFrom.isSome_type?_iff (name : String) :
    (schema.type? name).isSome = true ↔ (withBuiltins d.types).contains name = true := by
  rw [Schema.type?, h.types_eq, Table.contains]

theorem BuiltFrom.of_rootName {name : String} (hname : schema.rootName? kind = some name) :
    name = rootName d.roots.named kind ∧ (schema.type? name).isSome = true := by
  have hroot := h.rootType_eq kind
  rw [hname, rootType_eq_some_iff, ← h.isSome_type?_iff] at hroot
  exact hroot

theorem BuiltFrom.of_no_rootName (hname : schema.rootName? kind = none) :
    d.roots.named kind = none ∧ schema.type? (rootName d.roots.named kind) = none := by
  have hroot := h.rootType_eq kind
  rw [hname, rootType_eq_none_iff, ← h.isSome_type?_iff] at hroot
  rw [rootName, hroot.1]
  exact ⟨rfl, by simpa using hroot.2⟩

/-- What the lookup finds are types of the schema. -/
theorem BuiltFrom.rooted : schema.Rooted d.roots.named where
  query := by
    have hname : schema.rootName? .query = some schema.queryType := rfl
    exact (h.of_rootName hname).2
  resolved kind name hname := (h.of_rootName hname).2
  of_declared kind hdeclared := by
    cases hname : schema.rootName? kind with
    | none =>
      rw [(h.of_no_rootName hname).1] at hdeclared
      cases hdeclared
    | some name =>
      rw [root?_eq, hname]
      exact (h.of_rootName hname).2
  root_eq kind := by
    cases hname : schema.rootName? kind with
    | none => rw [root?_eq, hname, (h.of_no_rootName hname).2, Option.bind_none]
    | some name => rw [root?_eq, hname, Option.bind_some, (h.of_rootName hname).1]

end

end Schema

/-! ## Documents -/

theorem known_iff {definitions : List Sdl.Definition} {types : Table String TypeEntry} (h : Merged definitions types)
    (name : String) : (withBuiltins types).contains name = true ↔ Knows definitions name := by
  rw [contains_withBuiltins, h.mem_keys_iff, Knows]

section

variable {parse : Sdl.Parser} {text : String} {definitions : List Sdl.Definition}

/-- Where costs can be read and nothing is defined twice, all definitions are taken in, and what
    is left of them are the types that are known and the names declared last. -/
theorem exists_draft_of_unique (hread : parse text = .ok definitions)
    (hcosts : ∀ t ∈ typeDefinitions definitions, t.Readable)
    (hunique : ∀ name, Schema.parseWith parse text ≠ .error (.duplicateType name)) :
    ∃ d, Schema.parseWith parse text = Schema.ofDraft d ∧
      (∀ name, (withBuiltins d.types).contains name = true ↔ Knows definitions name) ∧
      d.roots.named = declaredRoot definitions := by
  have hparse := parse_of_read hread
  rcases foldlM_add_allowed hcosts .empty with ⟨-, d, hd⟩ | ⟨-, name, hname⟩
  · refine ⟨d, ?_, known_iff (merged_foldlM (d := Draft.empty) merged_empty hd), ?_⟩
    · rw [hparse, Schema.ofDefinitions, hd]
      rfl
    · funext kind
      have hnone : Draft.empty.roots.named kind = none := by cases kind <;> rfl
      rw [named_foldlM hd, hnone, Option.or_none]
  · refine absurd ?_ (hunique name)
    rw [hparse, Schema.ofDefinitions, hname]
    rfl

theorem not_duplicate_of_allowed (hread : parse text = .ok definitions)
    (hcosts : ∀ t ∈ typeDefinitions definitions, t.Readable)
    (hallowed : Allowed [] (typeDefinitions definitions)) (name : String) :
    Schema.parseWith parse text ≠ .error (.duplicateType name) := by
  rw [parse_of_read hread, Schema.ofDefinitions]
  rcases foldlM_add_allowed hcosts .empty with ⟨-, d, hd⟩ | ⟨hnot, -⟩
  · rw [hd]
    exact ofDraft_not_duplicate
  · exact absurd hallowed hnot

/-- A document whose costs can be read and that has no duplicates is refused for what is wrong
    with its root types first, and for nothing else. Where nothing is wrong it is read, and every
    schema that is read has the types that are known and root types among them. -/
theorem roots_closed (hread : parse text = .ok definitions)
    (hcosts : ∀ t ∈ typeDefinitions definitions, t.Readable)
    (hunique : ∀ name, Schema.parseWith parse text ≠ .error (.duplicateType name)) :
    (∀ e, Schema.parseWith parse text = .error e ↔ RootFault (Knows definitions) (declaredRoot definitions) e) ∧
      ((∀ e, ¬ RootFault (Knows definitions) (declaredRoot definitions) e) →
        ∃ schema, Schema.parseWith parse text = .ok schema) ∧
      ∀ schema, Schema.parseWith parse text = .ok schema →
        (∀ name, (schema.type? name).isSome = true ↔ Knows definitions name) ∧
          schema.Rooted (declaredRoot definitions) := by
  obtain ⟨d, hparse, hknown, hdeclared⟩ := exists_draft_of_unique hread hcosts hunique
  have herror : ∀ e, Schema.parseWith parse text = .error e ↔
      RootFault (Knows definitions) (declaredRoot definitions) e := by
    intro e
    rw [hparse, ofDraft_fault_iff, hdeclared, funext fun name => propext (hknown name)]
  refine ⟨herror, fun hnone => ?_, fun schema hschema => ?_⟩
  · cases hresult : Schema.parseWith parse text with
    | ok schema => exact ⟨schema, rfl⟩
    | error e => exact absurd ((herror e).mp hresult) (hnone e)
  · rw [hparse] at hschema
    have hbuilt := builtFrom_of_ofDraft hschema
    rw [← hdeclared]
    exact ⟨fun name => (hbuilt.isSome_type?_iff name).trans (hknown name), hbuilt.rooted⟩

end

/-- An extension names another query type, and a mutation type that is defined nowhere. -/
def renamedRoots : String :=
  "schema{query:Root}type Root{a:Int}extend schema{query:Entry mutation:Change}type Entry{b:Int}"

def renamedDefinitions : List Sdl.Definition :=
  [.schema false ⟨some "Root", none, none⟩,
    .type ⟨false, "Root", [], .object [] [⟨"a", [], .named "Int" true, []⟩]⟩,
    .schema true ⟨some "Entry", some "Change", none⟩,
    .type ⟨false, "Entry", [], .object [] [⟨"b", [], .named "Int" true, []⟩]⟩]

def changeDefinition : Sdl.Definition := .type ⟨false, "Change", [], .object [] [⟨"c", [], .named "Int" true, []⟩]⟩

/-- The document is refused for its mutation type. With one more definition behind it, it is read,
    and its query type is the one that is named last. -/
theorem roots_closed_renamed :
    Sdl.parse renamedRoots = .ok renamedDefinitions ∧
      Schema.parse renamedRoots = .error (.unknownRootType .mutation "Change") ∧
      Sdl.parse (renamedRoots ++ "type Change{c:Int}") = .ok (renamedDefinitions ++ [changeDefinition]) ∧
      ∃ schema, Schema.parse (renamedRoots ++ "type Change{c:Int}") = .ok schema ∧
        schema.root? .query = schema.type? "Entry" ∧ (schema.root? .query).isSome = true ∧
        (schema.root? .mutation).isSome = true ∧ schema.root? .subscription = none := by
  have hread : Sdl.parse renamedRoots = .ok renamedDefinitions := eq_ok_of_toOption (by decide +kernel)
  have hcosts : ∀ t ∈ typeDefinitions renamedDefinitions, t.Readable := by decide +kernel
  have hread' : Sdl.parse (renamedRoots ++ "type Change{c:Int}") = .ok (renamedDefinitions ++ [changeDefinition]) :=
    eq_ok_of_toOption (by decide +kernel)
  have hcosts' : ∀ t ∈ typeDefinitions (renamedDefinitions ++ [changeDefinition]), t.Readable := by decide +kernel
  have hunique := not_duplicate_of_allowed hread hcosts (by decide +kernel)
  have hunique' := not_duplicate_of_allowed hread' hcosts' (by decide +kernel)
  obtain ⟨hrefused, -⟩ := roots_closed hread hcosts hunique
  obtain ⟨-, hsuccess, hrooted⟩ := roots_closed hread' hcosts' hunique'
  have hfault : ∀ e, ¬ RootFault (Knows (renamedDefinitions ++ [changeDefinition]))
      (declaredRoot (renamedDefinitions ++ [changeDefinition])) e := by
    refine no_rootFault_iff.mpr ⟨by decide +kernel, fun kind => ?_⟩
    cases kind <;> decide +kernel
  obtain ⟨schema, hschema⟩ := hsuccess hfault
  obtain ⟨hknown, hroots⟩ := hrooted schema hschema
  refine ⟨hread, ?_, hread', schema, hschema, hroots.root_eq .query, hroots.query, hroots.of_declared .mutation ?_, ?_⟩
  · exact (hrefused _).mpr (.unknownMutation (by decide +kernel) (by decide +kernel) (by decide +kernel))
  · decide +kernel
  · rw [hroots.root_eq]
    exact Option.not_isSome_iff_eq_none.mp ((hknown _).not.mpr (by decide +kernel))

end QueryCost
