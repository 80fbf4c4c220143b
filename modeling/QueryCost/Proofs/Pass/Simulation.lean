/-
  QueryCost.Proofs.Pass.Simulation — two walks abreast.

  Two visitors go through the same definitions, each in a document of its own, told of the
  same things at the same places. When they do the same about every field and whatever they
  are told keeps their states related (`Simulates`), their states are related at the end.

  - `selections_abreast`: walks that are abreast are still so behind any selections.
  - `walk_simulated`: the same for whole documents that go through their definitions in the
    same order.

  A visitor that writes down the fields it enters goes abreast with the one it writes for
  (`Visitor.recording`).
-/

import QueryCost.Walk

namespace QueryCost

/-- The same place in another document. -/
def Place.inDocument (p : Place) (document : Document) : Place := { p with document := document }

/-- Told at the same place in the two documents, `f` and `g` keep states related. -/
def KeepsRelated {σ τ : Type} (document document' : Document) (R : σ → τ → Prop) (f : Place → σ → σ)
    (g : Place → τ → τ) : Prop :=
  ∀ p s t, p.document = document → R s t → R (f p s) (g (p.inDocument document') t)

/-- What two walks have in common: the place, but for the document, and their states, as far
    as `R` sees. -/
structure Walk.Abreast {σ τ : Type} (document document' : Document) (R : σ → τ → Prop) (w : Walk σ) (w' : Walk τ) :
    Prop where
  document : w.place.document = document
  place : w'.place = w.place.inDocument document'
  state : R w.state w'.state

namespace Walk.Abreast

variable {σ τ : Type} {document document' : Document} {R : σ → τ → Prop} {w : Walk σ} {w' : Walk τ}

theorem push (h : w.Abreast document document' R w') (t : Option TypeEntry) :
    (w.push t).Abreast document document' R (w'.push t) := by
  refine ⟨h.document, ?_, h.state⟩
  simp only [Walk.push, h.place]
  rfl

theorem pop (h : w.Abreast document document' R w') : w.pop.Abreast document document' R w'.pop := by
  refine ⟨h.document, ?_, h.state⟩
  simp only [Walk.pop, h.place]
  rfl

theorem tell (h : w.Abreast document document' R w') {f : Place → σ → σ} {g : Place → τ → τ}
    (hfg : KeepsRelated document document' R f g) :
    (w.tell f).Abreast document document' R (w'.tell g) := by
  refine ⟨h.document, h.place, ?_⟩
  have hstates := hfg w.place w.state w'.state h.document h.state
  rwa [← h.place] at hstates

theorem schema (h : w.Abreast document document' R w') : w'.place.schema = w.place.schema := by
  rw [h.place]
  rfl

theorem type? (h : w.Abreast document document' R w') (name : String) : w'.type? name = w.type? name := by
  unfold Walk.type?
  rw [h.schema]

theorem landing (h : w.Abreast document document' R w') (field : String) : w'.landing field = w.landing field := by
  unfold Walk.landing Walk.type?
  rw [h.place]
  rfl

end Walk.Abreast

namespace Visitor

variable {σ τ : Type}

/-- Told of the same things in their documents, the visitors keep their states related, and
    they do the same about fields. -/
structure Simulates (v : Visitor σ) (v' : Visitor τ) (document document' : Document) (R : σ → τ → Prop) : Prop where
  enterDocument : KeepsRelated document document' R v.enterDocument v'.enterDocument
  exitDocument : KeepsRelated document document' R v.exitDocument v'.exitDocument
  enterOperation (name : Option String) (op : Operation) :
    KeepsRelated document document' R (v.enterOperation · name op) (v'.enterOperation · name op)
  exitOperation (name : Option String) (op : Operation) :
    KeepsRelated document document' R (v.exitOperation · name op) (v'.exitOperation · name op)
  enterFragment (name : String) (f : Fragment) :
    KeepsRelated document document' R (v.enterFragment · name f) (v'.enterFragment · name f)
  exitFragment (name : String) (f : Fragment) :
    KeepsRelated document document' R (v.exitFragment · name f) (v'.exitFragment · name f)
  enterField (f : Field) (below : List Selection) (p : Place) (s : σ) (t : τ) : p.document = document → R s t →
    (v'.enterField (p.inDocument document') f below t).1 = (v.enterField p f below s).1 ∧
      R (v.enterField p f below s).2 (v'.enterField (p.inDocument document') f below t).2
  exitField (f : Field) (below : List Selection) :
    KeepsRelated document document' R (v.exitField · f below) (v'.exitField · f below)
  spread (fragment : String) : KeepsRelated document document' R (v.spread · fragment) (v'.spread · fragment)

namespace Simulates

variable {v : Visitor σ} {v' : Visitor τ} {document document' : Document} {R : σ → τ → Prop} {w : Walk σ} {w' : Walk τ}

/-! ## Selections -/

mutual

theorem selection_abreast (h : v.Simulates v' document document' R) (sel : Selection) {w : Walk σ} {w' : Walk τ}
    (hw : w.Abreast document document' R w') :
    (v.selection sel w).Abreast document document' R (v'.selection sel w') := by
  cases sel with
  | field f below =>
    have hentered := hw.push (w.landing f.name)
    obtain ⟨hflow, hstate⟩ := h.enterField f below (w.push (w.landing f.name)).place w.state w'.state hw.document hw.state
    rw [← hentered.place] at hflow hstate
    generalize hout : v.enterField (w.push (w.landing f.name)).place f below w.state = out at hflow hstate
    generalize hout' : v'.enterField (w'.push (w.landing f.name)).place f below w'.state = out' at hflow hstate
    rw [← hw.landing] at hout'
    obtain ⟨flow, s⟩ := out
    obtain ⟨flow', t⟩ := out'
    obtain rfl : flow' = flow := hflow
    cases flow' with
    | skip =>
      rw [selection_of_skip hout, selection_of_skip hout']
      exact ⟨hw.document, hw.place, hstate⟩
    | next =>
      rw [selection_of_next hout, selection_of_next hout', hw.landing]
      have hbefore : Walk.Abreast document document' R ⟨(w.push (w.landing f.name)).place, s⟩
          ⟨(w'.push (w.landing f.name)).place, t⟩ := ⟨hw.document, hentered.place, hstate⟩
      exact ((selections_abreast h below hbefore).tell (h.exitField f below)).pop
  | inline condition directives below =>
    cases condition with
    | none => exact selections_abreast h below hw
    | some t =>
      simp only [selection, hw.type?]
      exact (selections_abreast h below (hw.push (w.type? t))).pop
  | spread f directives => exact hw.tell (h.spread f)

theorem selections_abreast (h : v.Simulates v' document document' R) (selections : List Selection)
    {w : Walk σ} {w' : Walk τ} (hw : w.Abreast document document' R w') :
    (v.selections selections w).Abreast document document' R (v'.selections selections w') := by
  cases selections with
  | nil => exact hw
  | cons sel others => exact selections_abreast h others (selection_abreast h sel hw)

end

/-! ## Definitions -/

theorem operation_abreast (h : v.Simulates v' document document' R) (entry : Option String × Operation)
    (hw : w.Abreast document document' R w') :
    (v.operation w entry).Abreast document document' R (v'.operation w' entry) := by
  obtain ⟨name, op⟩ := entry
  simp only [operation, hw.schema]
  have hentered := (hw.push (w.place.schema.root? op.kind)).tell (h.enterOperation name op)
  exact ((h.selections_abreast op.selections hentered).tell (h.exitOperation name op)).pop

theorem fragment_abreast (h : v.Simulates v' document document' R) (entry : String × Fragment)
    (hw : w.Abreast document document' R w') :
    (v.fragment w entry).Abreast document document' R (v'.fragment w' entry) := by
  obtain ⟨name, f⟩ := entry
  simp only [fragment, hw.type?]
  have hentered := (hw.push (w.type? f.condition)).tell (h.enterFragment name f)
  exact ((h.selections_abreast f.selections hentered).tell (h.exitFragment name f)).pop

theorem definitions_abreast (h : v.Simulates v' document document' R)
    (hoperations : document'.operationsInOrder = document.operationsInOrder)
    (hfragments : document'.fragmentsInOrder = document.fragmentsInOrder) (hw : w.Abreast document document' R w') :
    (v.definitions w).Abreast document document' R (v'.definitions w') := by
  have hdocument' : w'.place.document = document' := by
    rw [hw.place]
    rfl
  have hops : (document.operationsInOrder.foldl v.operation w).Abreast document document' R
      (document.operationsInOrder.foldl v'.operation w') :=
    List.foldl_rel hw fun entry _ _ _ hbetween => h.operation_abreast entry hbetween
  have hops' : (document.operationsInOrder.foldl v'.operation w').place.document = document' := by
    rw [hops.place]
    rfl
  unfold definitions
  simp only [hw.document, hdocument', hoperations, hops.document, hops', hfragments]
  exact List.foldl_rel hops fun entry _ _ _ hbetween => h.fragment_abreast entry hbetween

/-- Visitors of documents with the same definitions in the same order end in related states
    when they begin in related ones. -/
theorem walk_simulated (h : v.Simulates v' document document' R)
    (hoperations : document'.operationsInOrder = document.operationsInOrder)
    (hfragments : document'.fragmentsInOrder = document.fragmentsInOrder) (schema : Schema) (supplied : Variables)
    {s : σ} {t : τ} (hst : R s t) : R (v.walk schema document supplied s) (v'.walk schema document' supplied t) := by
  have hstart : Walk.Abreast document document' R ⟨⟨schema, document, supplied, []⟩, s⟩
      ⟨⟨schema, document', supplied, []⟩, t⟩ := ⟨rfl, rfl, hst⟩
  have hentered := hstart.tell h.enterDocument
  exact ((h.definitions_abreast hoperations hfragments hentered).tell h.exitDocument).state

end Simulates

/-! ## Fields written down -/

/-- The visitor, writing down what `look` sees of every field that is entered. -/
def recording {γ : Type} (v : Visitor σ) (look : Place → Field → σ → γ) : Visitor (σ × List γ) where
  enterDocument p r := (v.enterDocument p r.1, r.2)
  exitDocument p r := (v.exitDocument p r.1, r.2)
  enterOperation p name op r := (v.enterOperation p name op r.1, r.2)
  exitOperation p name op r := (v.exitOperation p name op r.1, r.2)
  enterFragment p name f r := (v.enterFragment p name f r.1, r.2)
  exitFragment p name f r := (v.exitFragment p name f r.1, r.2)
  enterField p f below r :=
    let (flow, s) := v.enterField p f below r.1
    (flow, s, r.2 ++ [look p f r.1])
  exitField p f below r := (v.exitField p f below r.1, r.2)
  spread p fragment r := (v.spread p fragment r.1, r.2)

end Visitor

end QueryCost
