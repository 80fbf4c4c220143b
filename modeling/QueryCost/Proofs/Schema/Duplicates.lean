/-
  QueryCost.Proofs.Schema.Duplicates — when a document defines a type more than once.

  A definition that is no extension is refused where its name is in the registry already. It is
  there after another definition of it, and also after an extension, which makes the entry as
  well. So a document is refused not only for a name that is defined twice: a definition that
  stands behind an extension of its name is taken for a second one. Behind its definition an
  extension is merged.

  - `foldlM_add_allowed`: what comes of the definitions of a document, and that nothing else keeps
    them out once their costs can be read.
  - `duplicate_reported`: which documents are refused with a duplicate.
  - `duplicate_of_single_definition`: one that defines no name twice.
-/

import Mathlib.Data.List.Nodup
import QueryCost.Proofs.Schema.Merging

namespace QueryCost

namespace Sdl

/-- The names of the definitions that are no extensions. -/
def definedNames (definitions : List Definition) : List String :=
  ((typeDefinitions definitions).filter (!·.extend)).map (·.name)

/-- An extension of the name stands before a definition of it. -/
def ExtendedBeforeDefined (definitions : List Definition) (name : String) : Prop :=
  ∃ e t, [e, t].Sublist (typeDefinitions definitions) ∧
    e.extend = true ∧ e.name = name ∧ t.extend = false ∧ t.name = name

/-- The second may stand behind the first: it is an extension or has another name. -/
def TypeDefinition.MayFollow (t later : TypeDefinition) : Prop := later.extend = false → t.name ≠ later.name

/-- None of these is refused behind the names that are known and those before it. -/
def Allowed (known : List String) (types : List TypeDefinition) : Prop :=
  (∀ t ∈ types, t.extend = false → t.name ∉ known) ∧ types.Pairwise TypeDefinition.MayFollow

instance : DecidableRel TypeDefinition.MayFollow := fun t later =>
  inferInstanceAs (Decidable (later.extend = false → t.name ≠ later.name))

instance (known : List String) (types : List TypeDefinition) : Decidable (Allowed known types) :=
  inferInstanceAs (Decidable ((∀ t ∈ types, t.extend = false → t.name ∉ known) ∧ types.Pairwise TypeDefinition.MayFollow))

section

variable {known : List String} {t : TypeDefinition} {rest : List TypeDefinition}

theorem allowed_cons_known (h : t.name ∈ known) :
    Allowed known (t :: rest) ↔ t.extend = true ∧ Allowed known rest := by
  constructor
  · rintro ⟨hknown, hpairs⟩
    obtain ⟨ht, hrest⟩ := List.forall_mem_cons.mp hknown
    refine ⟨?_, hrest, (List.pairwise_cons.mp hpairs).2⟩
    by_contra hextend
    exact ht (Bool.eq_false_iff.mpr hextend) h
  · rintro ⟨hextend, hrest, hpairs⟩
    refine ⟨List.forall_mem_cons.mpr ⟨fun hplain => ?_, hrest⟩, List.pairwise_cons.mpr ⟨fun later hlater hplain => ?_, hpairs⟩⟩
    · rw [hextend] at hplain
      cases hplain
    · -- a later definition of this name would meet it among the known ones
      intro hname
      exact hrest later hlater hplain (hname ▸ h)

theorem allowed_cons_new (h : t.name ∉ known) : Allowed known (t :: rest) ↔ Allowed (known ++ [t.name]) rest := by
  constructor
  · rintro ⟨hknown, hpairs⟩
    obtain ⟨hfollow, hpairs⟩ := List.pairwise_cons.mp hpairs
    refine ⟨fun later hlater hplain hmem => ?_, hpairs⟩
    rcases List.mem_append.mp hmem with hmem | hmem
    · exact hknown later (List.mem_cons_of_mem _ hlater) hplain hmem
    · exact hfollow later hlater hplain (List.mem_singleton.mp hmem).symm
  · rintro ⟨hknown, hpairs⟩
    refine ⟨List.forall_mem_cons.mpr ⟨fun _ => h, fun later hlater hplain hmem => ?_⟩,
      List.pairwise_cons.mpr ⟨fun later hlater hplain hname => ?_, hpairs⟩⟩
    · exact hknown later hlater hplain (List.mem_append_left _ hmem)
    · exact hknown later hlater hplain (List.mem_append_right _ (List.mem_singleton.mpr hname.symm))

end

variable (definitions : List Definition)

theorem nodup_definedNames_iff :
    (definedNames definitions).Nodup ↔
      (typeDefinitions definitions).Pairwise fun t later =>
        t.extend = false → later.extend = false → t.name ≠ later.name := by
  simp [definedNames, List.Nodup, List.pairwise_map, List.pairwise_filter]

theorem allowed_nil_iff :
    Allowed [] (typeDefinitions definitions) ↔
      (definedNames definitions).Nodup ∧ ∀ name, ¬ ExtendedBeforeDefined definitions name := by
  rw [nodup_definedNames_iff, Allowed, List.pairwise_iff_forall_sublist, List.pairwise_iff_forall_sublist]
  constructor
  · rintro ⟨-, hfollow⟩
    refine ⟨fun hbehind _ => hfollow hbehind, ?_⟩
    rintro name ⟨e, t, hbehind, -, he, hplain, ht⟩
    exact hfollow hbehind hplain (he.trans ht.symm)
  · rintro ⟨hdefined, hextended⟩
    refine ⟨fun _ _ _ => List.not_mem_nil, ?_⟩
    intro t later hbehind hplain hname
    cases ht : t.extend with
    | false => exact hdefined hbehind ht hplain hname
    | true => exact hextended later.name ⟨t, later, hbehind, ht, hname, hplain, rfl⟩

/-- What is not allowed is defined twice, or behind an extension. -/
theorem not_allowed_nil_iff :
    ¬ Allowed [] (typeDefinitions definitions) ↔
      ∃ name, 2 ≤ (definedNames definitions).count name ∨ ExtendedBeforeDefined definitions name := by
  rw [allowed_nil_iff, List.nodup_iff_count_le_one, not_and_or, exists_or]
  simp only [not_forall, Nat.not_le, not_not]
  rfl

end Sdl

open Sdl (typeDefinitions definedNames ExtendedBeforeDefined Allowed)

/-! ## Refused definitions -/

section

variable {definitions : List Sdl.Definition}

/-- One definition is taken in, and the rest is allowed behind it if it was behind what was known
    before, or it is refused for its name. -/
theorem addType_allowed {t : Sdl.TypeDefinition} (ht : t.Readable) (d : Draft) (rest : List Sdl.TypeDefinition) :
    (∃ d', d.addType t = .ok d' ∧ (Allowed d.types.keys (t :: rest) ↔ Allowed d'.types.keys rest)) ∨
      (d.addType t = .error (.duplicateType t.name) ∧ ¬ Allowed d.types.keys (t :: rest)) := by
  rw [Draft.addType_of_readable ht]
  cases hentry : d.types.get? t.name with
  | some entry =>
    have hknown : t.name ∈ d.types.keys := Table.mem_keys_of_get? hentry
    cases hextend : t.extend with
    | true =>
      refine .inl ⟨_, rfl, ?_⟩
      rw [Sdl.allowed_cons_known hknown, Table.keys_insert, if_pos hknown]
      exact and_iff_right hextend
    | false =>
      refine .inr ⟨rfl, fun hallowed => ?_⟩
      rw [Sdl.allowed_cons_known hknown, hextend] at hallowed
      cases hallowed.1
  | none =>
    have hnew : t.name ∉ d.types.keys := Table.get?_eq_none_iff.mp hentry
    refine .inl ⟨_, rfl, ?_⟩
    rw [Sdl.allowed_cons_new hnew, Table.keys_insert, if_neg hnew]

/-- Once the costs of all definitions can be read, those that are not allowed are all that keeps
    a document out, and they are reported as duplicates. -/
theorem foldlM_add_allowed (hread : ∀ t ∈ typeDefinitions definitions, t.Readable) (d : Draft) :
    (Allowed d.types.keys (typeDefinitions definitions) ∧ ∃ d', definitions.foldlM Draft.add d = .ok d') ∨
      (¬ Allowed d.types.keys (typeDefinitions definitions) ∧
        ∃ name, definitions.foldlM Draft.add d = .error (.duplicateType name)) := by
  induction definitions generalizing d with
  | nil => exact .inl ⟨⟨nofun, .nil⟩, d, rfl⟩
  | cons definition rest ih =>
    cases definition with
    | schema extend roots => exact ih hread (d.addRoots roots)
    | directive name => exact ih hread d
    | type t =>
      obtain ⟨ht, hrest⟩ := List.forall_mem_cons.mp hread
      rw [List.foldlM_cons, Draft.add]
      rcases addType_allowed ht d (typeDefinitions rest) with ⟨d', hadd, hiff⟩ | ⟨hadd, hnot⟩
      · rw [hadd, show typeDefinitions (.type t :: rest) = t :: typeDefinitions rest from rfl, hiff]
        exact ih hrest d'
      · rw [hadd]
        exact .inr ⟨hnot, t.name, rfl⟩

theorem rootType_not_duplicate {types : Table String TypeEntry} {kind : OperationKind} {declared : Option String}
    {name : String} : rootType types kind declared ≠ .error (.duplicateType name) := by
  cases declared with
  | none => simp [rootType]
  | some root =>
    simp only [rootType]
    split <;> simp

/-- Making a schema of the registry finds no duplicates. -/
theorem ofDraft_not_duplicate {d : Draft} {name : String} : Schema.ofDraft d ≠ .error (.duplicateType name) := by
  intro h
  rcases error_of_bind h with h | ⟨query, -, h⟩
  · exact rootType_not_duplicate h
  cases query with
  | none => cases h
  | some root =>
    rcases error_of_bind h with h | ⟨queryType, -, h⟩
    · cases h
    rcases error_of_bind h with h | ⟨mutationType, -, h⟩
    · exact rootType_not_duplicate h
    rcases error_of_bind h with h | ⟨subscriptionType, -, h⟩
    · exact rootType_not_duplicate h
    cases h

end

/-- A document whose costs can be read is refused with a duplicate exactly where it defines a
    name twice, or defines a name behind an extension of it. -/
theorem duplicate_reported {parse : Sdl.Parser} {text : String} {definitions : List Sdl.Definition}
    (hread : parse text = .ok definitions) (hcosts : ∀ t ∈ typeDefinitions definitions, t.Readable) :
    (∃ name, Schema.parseWith parse text = .error (.duplicateType name)) ↔
      ∃ name, 2 ≤ (definedNames definitions).count name ∨ ExtendedBeforeDefined definitions name := by
  rw [← Sdl.not_allowed_nil_iff, parse_of_read hread, Schema.ofDefinitions]
  rcases foldlM_add_allowed hcosts .empty with ⟨hallowed, d, hd⟩ | ⟨hnot, name, hname⟩
  · rw [hd]
    refine iff_of_false ?_ (not_not.mpr hallowed)
    rintro ⟨name, h⟩
    exact ofDraft_not_duplicate h
  · rw [hname]
    exact iff_of_true ⟨name, rfl⟩ hnot

/-- Two definitions of one type. -/
def definedTwice : String := "type Query{a:Int}type Query{b:Int}"

def queryPart (extend : Bool) (field : String) : Sdl.Definition :=
  .type ⟨extend, "Query", [], .object [] [⟨field, [], .named "Int" true, []⟩]⟩

theorem duplicate_reported_twice :
    Sdl.parse definedTwice = .ok [queryPart false "a", queryPart false "b"] ∧
      (∀ t ∈ typeDefinitions [queryPart false "a", queryPart false "b"], t.Readable) ∧
      ∃ name, Schema.parse definedTwice = .error (.duplicateType name) := by
  have hread : Sdl.parse definedTwice = .ok [queryPart false "a", queryPart false "b"] :=
    eq_ok_of_toOption (by decide +kernel)
  have hcosts : ∀ t ∈ typeDefinitions [queryPart false "a", queryPart false "b"], t.Readable := by decide +kernel
  exact ⟨hread, hcosts, (duplicate_reported hread hcosts).mpr ⟨"Query", .inl (by decide +kernel)⟩⟩

/-- An extension of a type and behind it the one definition of the type. -/
def extendedFirst : String := "extend type Query{a:Int}type Query{b:Int}"

/-- A document that defines no type twice can be refused with a duplicate. -/
theorem duplicate_of_single_definition :
    ¬ ∀ (text : String) (definitions : List Sdl.Definition), Sdl.parse text = .ok definitions →
      (∀ t ∈ typeDefinitions definitions, t.Readable) →
      ((∃ name, Schema.parse text = .error (.duplicateType name)) ↔
        ∃ name, 2 ≤ (definedNames definitions).count name) := by
  intro h
  have hread : Sdl.parse extendedFirst = .ok [queryPart true "a", queryPart false "b"] :=
    eq_ok_of_toOption (by decide +kernel)
  have hrefused : Schema.parse extendedFirst = .error (.duplicateType "Query") := (parse_of_read hread).trans rfl
  obtain ⟨name, hname⟩ := (h extendedFirst _ hread (by decide +kernel)).mp ⟨"Query", hrefused⟩
  have hsingle : (definedNames [queryPart true "a", queryPart false "b"]).Nodup := by decide +kernel
  exact absurd (List.nodup_iff_count_le_one.mp hsingle name) (Nat.not_le.mpr hname)

end QueryCost
