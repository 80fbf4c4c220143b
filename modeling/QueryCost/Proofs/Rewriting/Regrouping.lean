/-
  QueryCost.Proofs.Rewriting.Regrouping — selections that are grouped without a node.

  An inline fragment has no node of its own: it says what type its selections are on, and they
  belong where it stands. So it may be opened where that type is the one around it anyway. A
  field that a union does not declare is no more than a group either, of selections on a type
  that is unknown.

  - `Selection.Regrouped`: opening such groups, and writing such fields as inline fragments, at
    any depth and any number of times.
  - `Regrouped.interchangeable`: selections are interchangeable with what is regrouped.
  - `regrouping_published`: a pass publishes and reports the same.
-/

import QueryCost.Proofs.Rewriting.Interchange
import QueryCost.Proofs.Schema.Registry

namespace QueryCost

/-! ## Regrouping -/

/-- Selections on a type, regrouped: at any depth and any number of times, each time within
    the type the selections there are on. -/
inductive Selection.Regrouped (schema : Schema) : Option TypeEntry → List Selection → List Selection → Prop
  | nil {parent : Option TypeEntry} : Regrouped schema parent [] []
  | field {parent : Option TypeEntry} {f : Field} {below below' rest rest' : List Selection} :
      Regrouped schema (schema.landing parent f.name) below below' → Regrouped schema parent rest rest' →
      Regrouped schema parent (.field f below :: rest) (.field f below' :: rest')
  | plain {parent : Option TypeEntry} {directives : List (Directive String)} {below below' rest rest' : List Selection} :
      Regrouped schema parent below below' → Regrouped schema parent rest rest' →
      Regrouped schema parent (.inline none directives below :: rest) (.inline none directives below' :: rest')
  | conditioned {parent : Option TypeEntry} {name : String} {directives : List (Directive String)}
      {below below' rest rest' : List Selection} :
      Regrouped schema (schema.type? name) below below' → Regrouped schema parent rest rest' →
      Regrouped schema parent (.inline (some name) directives below :: rest) (.inline (some name) directives below' :: rest')
  | spread {parent : Option TypeEntry} {f : String} {directives : List (Directive String)} {rest rest' : List Selection} :
      Regrouped schema parent rest rest' →
      Regrouped schema parent (.spread f directives :: rest) (.spread f directives :: rest')
  /-- What is grouped without a condition is opened. -/
  | openPlain {parent : Option TypeEntry} {directives : List (Directive String)} {below rest : List Selection} :
      Regrouped schema parent (.inline none directives below :: rest) (below ++ rest)
  /-- What is grouped on the known type it is on anyway is opened. -/
  | openOwn {t : TypeEntry} {name : String} {directives : List (Directive String)} {below rest : List Selection} :
      schema.type? name = some t →
      Regrouped schema (some t) (.inline (some name) directives below :: rest) (below ++ rest)
  /-- A field a union does not declare becomes a group on a type there is none of. -/
  | ofUnionField {t : TypeEntry} {f : Field} {name : String} {directives : List (Directive String)}
      {below rest : List Selection} :
      t.isUnion = true → t.field? f.name = none → isIntrospection f.name = false → schema.type? name = none →
      Regrouped schema (some t) (.field f below :: rest) (.inline (some name) directives below :: rest)
  | trans {parent : Option TypeEntry} {selections selections' selections'' : List Selection} :
      Regrouped schema parent selections selections' → Regrouped schema parent selections' selections'' →
      Regrouped schema parent selections selections''

/-- The same definitions in the same places, with selections regrouped, those of an operation on
    its root type and those of a fragment on the type of its condition. -/
def Document.Regrouped (schema : Schema) (document document' : Document) : Prop :=
  document.AlikeBy (fun op => Selection.Regrouped schema (schema.root? op.kind))
    (fun f => Selection.Regrouped schema (schema.type? f.condition)) document'

/-! ## Outlines and needs -/

section

variable {schema : Schema} {values : Option Variables} {t : TypeEntry} {f : Field}

theorem fieldRole_of_union (hunion : t.isUnion = true) (hname : isIntrospection f.name = false) :
    fieldRole schema values (some t) f = .passing := by
  simp only [fieldRole, hname, hunion, if_true, Bool.false_eq_true, if_false]

theorem landing_of_undeclared (hfield : t.field? f.name = none) : schema.landing (some t) f.name = none := by
  simp only [Schema.landing, Option.bind_some, hfield, Option.bind_none]

end

namespace Selection.Regrouped

variable {schema : Schema} {parent : Option TypeEntry} {selections selections' : List Selection}

theorem outlines_eq (h : Regrouped schema parent selections selections') (document : Document)
    (values : Option Variables) :
    outlinesAll document schema values parent selections' = outlinesAll document schema values parent selections := by
  induction h with
  | nil => rfl
  | field _ _ ihbelow ihrest => simp only [outlinesAll, outlines, ihbelow, ihrest]
  | plain _ _ ihbelow ihrest => simp only [outlinesAll, outlines, ihbelow, ihrest]
  | conditioned _ _ ihbelow ihrest => simp only [outlinesAll, outlines, ihbelow, ihrest]
  | spread _ ihrest => simp only [outlinesAll, outlines, ihrest]
  | openPlain => simp only [outlinesAll_append, outlinesAll, outlines]
  | openOwn hname => simp only [outlinesAll_append, outlinesAll, outlines, hname]
  | ofUnionField hunion hfield hname hunknown =>
    simp only [outlinesAll, outlines, fieldRole_of_union hunion hname, landing_of_undeclared hfield, hunknown]
  | trans _ _ ih ih' => exact ih'.trans ih

theorem needsValues_eq (h : Regrouped schema parent selections selections') :
    needsValuesAll schema parent selections' = needsValuesAll schema parent selections := by
  induction h with
  | nil => rfl
  | field _ _ ihbelow ihrest => simp only [needsValuesAll, needsValues, ihbelow, ihrest]
  | plain _ _ ihbelow ihrest => simp only [needsValuesAll, needsValues, ihbelow, ihrest]
  | conditioned _ _ ihbelow ihrest => simp only [needsValuesAll, needsValues, ihbelow, ihrest]
  | spread _ ihrest => simp only [needsValuesAll, needsValues, ihrest]
  | openPlain => simp only [needsValuesAll_append, needsValuesAll, needsValues]
  | openOwn hname => simp only [needsValuesAll_append, needsValuesAll, needsValues, hname]
  | ofUnionField hunion hfield hname hunknown =>
    simp only [needsValuesAll, needsValues, fieldRole_of_union hunion hname, landing_of_undeclared hfield, hunknown,
      FieldRole.needsValues, Bool.false_or]
  | trans _ _ ih ih' => exact ih'.trans ih

theorem interchangeable (h : Regrouped schema parent selections selections') (document : Document)
    (values : Option Variables) : Interchangeable schema document values parent selections selections' :=
  ⟨h.needsValues_eq, h.outlines_eq document values⟩

end Selection.Regrouped

/-! ## What is published and reported -/

/-- Regrouping changes nothing about what a pass publishes and reports. A condition is opened
    where the type around it is the one the schema knows by this name, and in every schema that
    was read that is the name the type has. -/
theorem regrouping_published {schema : Schema} {document document' : Document}
    (h : document.Regrouped schema document') (e : Execution) :
    (validate schema document' e).execution = (validate schema document e).execution ∧
      ∀ (parse : Sdl.Parser) text read, Schema.parseWith parse text = .ok read → schema.types = read.types →
        ∀ name t, schema.type? name = some t → t.name = name := by
  constructor
  · have hinterchangeable : Document.Interchangeable schema e.supplied document document' := by
      refine h.imp (fun op _ selections hop => ?_) fun f selections hf => ?_
      · exact hop.interchangeable document _
      · exact hf.interchangeable document _
    exact hinterchangeable.execution_eq
  · intro parse text read hread htypes name t ht
    refine selfNamed_of_parse hread name t ?_
    rw [← htypes]
    exact ht

def hit : TypeEntry := { TypeEntry.bare "Hit" .union with members := ["Item"] }

/-- A query leads to hits, and a hit is an item. -/
def fair : Schema where
  queryType := "Query"
  mutationType := none
  subscriptionType := none
  types := withBuiltins (.ofPairs [
    ("Query", { TypeEntry.bare "Query" .object with
      fields := .ofPairs [("hits", ⟨"hits", .list (.named "Hit" true) true, ∅, none⟩)] }),
    ("Hit", hit),
    ("Item", { TypeEntry.bare "Item" .object with
      fields := .ofPairs [("name", ⟨"name", .named "String" true, ∅, none⟩)] })])
  implementors := ∅
  analyzer := none

/-- A query for these selections. -/
def asking (selections : List Selection) : Document where
  operations := .ofPairs [(none, ⟨⟨1, 1⟩, .query, [], [], selections⟩)]
  fragments := ∅

def itemNames : List Selection := [.inline (some "Item") [] [.field ⟨none, "name", [], []⟩ []]]

/-- Hits in two groups, and in each a field the union does not declare. -/
def grouped : Document :=
  asking [.inline none [] [.inline (some "Query") []
    [.field ⟨none, "hits", [], []⟩ [.field ⟨none, "any", [], []⟩ itemNames]]]]

/-- The groups are opened, and the field on a hit has become one. -/
def opened : Document := asking [.field ⟨none, "hits", [], []⟩ [.inline (some "Nowhere") [] itemNames]]

theorem regrouping_published_fair :
    Schema.parse "type Query \x7b hits: [Hit] \x7d union Hit = Item type Item \x7b name: String \x7d" = .ok fair ∧
      grouped.Regrouped (fair.withAnalyzer (.ofMax 10)) opened ∧
      (validate (fair.withAnalyzer (.ofMax 10)) opened (.ofVariables ∅)).execution.complexity = some ⟨2, 10⟩ ∧
      fair.type? "Hit" = some hit ∧ hit.name = "Hit" := by
  have hread : Schema.parse
      "type Query \x7b hits: [Hit] \x7d union Hit = Item type Item \x7b name: String \x7d" = .ok fair := by
    decide +kernel
  have hquery : (fair.type? "Query").isSome = true := by decide +kernel
  obtain ⟨query, hquery⟩ := Option.isSome_iff_exists.mp hquery
  have hlanding : fair.landing (fair.type? "Query") "hits" = some hit := by decide +kernel
  have hhit : fair.type? "Hit" = some hit := by decide +kernel
  have hnowhere : fair.type? "Nowhere" = none := by decide +kernel
  have hpublished : (validate (fair.withAnalyzer (.ofMax 10)) grouped (.ofVariables ∅)).execution.complexity =
      some ⟨2, 10⟩ := by decide +kernel
  have hregrouped : grouped.Regrouped (fair.withAnalyzer (.ofMax 10)) opened := by
    refine ⟨.cons ⟨rfl, rfl, rfl, rfl, ?_⟩ .nil, .nil⟩
    show Selection.Regrouped (fair.withAnalyzer (.ofMax 10)) (fair.type? "Query") _ _
    have hbelow : Selection.Regrouped (fair.withAnalyzer (.ofMax 10)) (fair.landing (fair.type? "Query") "hits")
        [.field ⟨none, "any", [], []⟩ itemNames] [.inline (some "Nowhere") [] itemNames] := by
      rw [hlanding]
      exact .ofUnionField rfl rfl (by decide) hnowhere
    rw [hquery] at hbelow ⊢
    exact .trans .openPlain (.trans (.openOwn hquery) (.field hbelow .nil))
  obtain ⟨hsame, hnames⟩ := regrouping_published hregrouped (.ofVariables ∅)
  refine ⟨hread, hregrouped, ?_, hhit, hnames Sdl.parse _ fair hread rfl "Hit" hit hhit⟩
  rw [hsame, hpublished]

end QueryCost
