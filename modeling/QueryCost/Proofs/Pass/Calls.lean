/-
  QueryCost.Proofs.Pass.Calls — what a visitor is told, and in which types.

  The walk keeps one stack for the types of operations, fragments, conditions and fields, and
  a visitor reads the two on top. Here it is shown that these are the types the document and
  the schema say: for a field the type of the selections it stands in and the type it leads
  to. Every visitor is told of what it enters and leaves as brackets around what is inside,
  and of nothing below a field it skips.

  - `Call`, `Visitor.calls`: what a visitor is told, one after the other, with the types it
    sees and what it answers about fields (`Visitor.called` writes it down).
  - `Selection.Told`, `Document.Told`: the calls selections and documents may lead to, by
    recursion on what is written.
  - `selection_told`, `selections_told`: one case for each kind of selection.
  - `calls_told`: every visitor is told of a document so, whatever it skips.
-/

import QueryCost.Proofs.Pass.Frames

namespace QueryCost

/-- One thing a visitor is told, with the types it sees then. -/
inductive Call where
  | enterDocument
  | exitDocument
  | enterOperation (current : Option TypeEntry) (name : Option String) (op : Operation)
  | exitOperation (current : Option TypeEntry) (name : Option String) (op : Operation)
  | enterFragment (current : Option TypeEntry) (name : String) (f : Fragment)
  | exitFragment (current : Option TypeEntry) (name : String) (f : Fragment)
  | enterField (parent current : Option TypeEntry) (f : Field) (below : List Selection) (answer : Flow)
  | exitField (parent current : Option TypeEntry) (f : Field) (below : List Selection)
  | spread (current : Option TypeEntry) (fragment : String)
  deriving Repr

namespace Visitor

variable {σ : Type}

/-- The visitor, writing down what it is told. -/
def called (v : Visitor σ) : Visitor (σ × List Call) where
  enterDocument p r := (v.enterDocument p r.1, r.2 ++ [.enterDocument])
  exitDocument p r := (v.exitDocument p r.1, r.2 ++ [.exitDocument])
  enterOperation p name op r := (v.enterOperation p name op r.1, r.2 ++ [.enterOperation p.currentType name op])
  exitOperation p name op r := (v.exitOperation p name op r.1, r.2 ++ [.exitOperation p.currentType name op])
  enterFragment p name f r := (v.enterFragment p name f r.1, r.2 ++ [.enterFragment p.currentType name f])
  exitFragment p name f r := (v.exitFragment p name f r.1, r.2 ++ [.exitFragment p.currentType name f])
  enterField p f below r :=
    let (flow, s) := v.enterField p f below r.1
    (flow, s, r.2 ++ [.enterField p.parentType p.currentType f below flow])
  exitField p f below r := (v.exitField p f below r.1, r.2 ++ [.exitField p.parentType p.currentType f below])
  spread p fragment r := (v.spread p fragment r.1, r.2 ++ [.spread p.currentType fragment])

/-- What a visitor is told in a walk. -/
def calls (v : Visitor σ) (schema : Schema) (document : Document) (supplied : Variables) (state : σ) : List Call :=
  (v.called.walk schema document supplied (state, [])).2

/-- Writing it down changes nothing about the states of the visitor. -/
theorem called_simulates (v : Visitor σ) (document : Document) :
    v.called.Simulates v document document fun r s => r.1 = s where
  enterDocument := by rintro p r _ rfl rfl; rfl
  exitDocument := by rintro p r _ rfl rfl; rfl
  enterOperation name op := by rintro p r _ rfl rfl; rfl
  exitOperation name op := by rintro p r _ rfl rfl; rfl
  enterFragment name f := by rintro p r _ rfl rfl; rfl
  exitFragment name f := by rintro p r _ rfl rfl; rfl
  enterField f below := by rintro p r _ rfl rfl; exact ⟨rfl, rfl⟩
  exitField f below := by rintro p r _ rfl rfl; rfl
  spread fragment := by rintro p r _ rfl rfl; rfl

end Visitor

/-! ## The calls a document leads to -/

mutual

/-- What a visitor is told of a selection on a type. A field is told of once when it is
    skipped. When it is not, leaving it is told of once, behind all that is below it, which is
    selected on the type it leads to. -/
inductive Selection.Told (schema : Schema) : Option TypeEntry → Selection → List Call → Prop
  | skipped {parent : Option TypeEntry} {f : Field} {below : List Selection} :
      Told schema parent (.field f below) [.enterField parent (schema.landing parent f.name) f below .skip]
  | entered {parent : Option TypeEntry} {f : Field} {below : List Selection} {inside : List Call} :
      ToldAll schema (schema.landing parent f.name) below inside →
      Told schema parent (.field f below)
        ([.enterField parent (schema.landing parent f.name) f below .next] ++ inside ++
          [.exitField parent (schema.landing parent f.name) f below])
  | plain {parent : Option TypeEntry} {directives : List (Directive String)} {below : List Selection}
      {inside : List Call} :
      ToldAll schema parent below inside → Told schema parent (.inline none directives below) inside
  | conditioned {parent : Option TypeEntry} {t : String} {directives : List (Directive String)}
      {below : List Selection} {inside : List Call} :
      ToldAll schema (schema.type? t) below inside → Told schema parent (.inline (some t) directives below) inside
  | spread {parent : Option TypeEntry} {fragment : String} {directives : List (Directive String)} :
      Told schema parent (.spread fragment directives) [.spread parent fragment]

inductive Selection.ToldAll (schema : Schema) : Option TypeEntry → List Selection → List Call → Prop
  | nil {parent : Option TypeEntry} : ToldAll schema parent [] []
  | cons {parent : Option TypeEntry} {s : Selection} {rest : List Selection} {first others : List Call} :
      Told schema parent s first → ToldAll schema parent rest others →
      ToldAll schema parent (s :: rest) (first ++ others)

end

/-- What a visitor is told of an operation, whose selections are on the root type of its kind. -/
inductive Operation.Told (schema : Schema) : Option String × Operation → List Call → Prop
  | intro {name : Option String} {op : Operation} {inside : List Call} :
      Selection.ToldAll schema (schema.root? op.kind) op.selections inside →
      Told schema (name, op)
        ([.enterOperation (schema.root? op.kind) name op] ++ inside ++ [.exitOperation (schema.root? op.kind) name op])

/-- What a visitor is told of a fragment, whose selections are on the type of its condition. -/
inductive Fragment.Told (schema : Schema) : String × Fragment → List Call → Prop
  | intro {name : String} {f : Fragment} {inside : List Call} :
      Selection.ToldAll schema (schema.type? f.condition) f.selections inside →
      Told schema (name, f)
        ([.enterFragment (schema.type? f.condition) name f] ++ inside ++
          [.exitFragment (schema.type? f.condition) name f])

/-- What a visitor is told of a document: of its operations and then of its fragments, each in
    the order of their positions. -/
inductive Document.Told (document : Document) (schema : Schema) : List Call → Prop
  | intro {operations fragments : List (List Call)} :
      List.Forall₂ (Operation.Told schema) document.operationsInOrder operations →
      List.Forall₂ (Fragment.Told schema) document.fragmentsInOrder fragments →
      Told document schema ([.enterDocument] ++ operations.flatten ++ fragments.flatten ++ [.exitDocument])

/-! ## Every walk leads to them -/

namespace Visitor

variable {σ : Type} {v : Visitor σ} {w w' w'' : Walk (σ × List Call)}

/-- The place is the same, and the visitor has been told of these calls. -/
structure Heard (calls : List Call) (w w' : Walk (σ × List Call)) : Prop where
  place : w'.place = w.place
  heard : w'.state.2 = w.state.2 ++ calls

theorem Heard.append {first others : List Call} (h : Heard first w w') (h' : Heard others w' w'') :
    Heard (first ++ others) w w'' := by
  refine ⟨h'.place.trans h.place, ?_⟩
  rw [h'.heard, h.heard, List.append_assoc]

/-- What is heard inside a type is heard around it, the type being left. -/
theorem Heard.pop {t : Option TypeEntry} {calls : List Call} (h : Heard calls (w.push t) w') : Heard calls w w'.pop :=
  ⟨Walk.place_pop h.place, h.heard⟩

/-- Entering and leaving are told around what is heard in between. -/
theorem Heard.between {t : Option TypeEntry} {s : σ × List Call} {inside : List Call}
    {exit : Place → σ × List Call → σ × List Call} {first last : Call} (h : Heard inside ⟨(w.push t).place, s⟩ w')
    (hfirst : s.2 = w.state.2 ++ [first]) (hlast : ∀ r, (exit (w.push t).place r).2 = r.2 ++ [last]) :
    Heard ([first] ++ inside ++ [last]) w (w'.tell exit).pop := by
  have hplace : w'.place = (w.push t).place := h.place
  refine ⟨Walk.place_pop hplace, ?_⟩
  show (exit w'.place w'.state).2 = _
  rw [hplace, hlast, h.heard, hfirst]
  simp only [List.append_assoc]

mutual

theorem selection_told (v : Visitor σ) (sel : Selection) (w : Walk (σ × List Call)) :
    ∃ calls, sel.Told w.place.schema w.place.currentType calls ∧ Heard calls w (v.called.selection sel w) := by
  cases sel with
  | field f below =>
    let landing := w.place.schema.landing w.place.currentType f.name
    let entered := (w.push (w.landing f.name)).place
    have hparent : entered.parentType = w.place.currentType := w.parentType_push _
    cases hout : v.enterField entered f below w.state.1 with
    | mk flow s =>
      have hcalled : v.called.enterField entered f below w.state =
          (flow, s, w.state.2 ++ [.enterField w.place.currentType landing f below flow]) := by
        simp only [called, hout, hparent]
        rfl
      cases flow with
      | skip =>
        rw [selection_of_skip hcalled]
        exact ⟨_, .skipped, rfl, rfl⟩
      | next =>
        rw [selection_of_next hcalled]
        obtain ⟨inside, htold, hheard⟩ := selections_told v below
          ⟨entered, s, w.state.2 ++ [.enterField w.place.currentType landing f below .next]⟩
        refine ⟨_, .entered htold, hheard.between rfl fun r => ?_⟩
        show r.2 ++ [.exitField entered.parentType landing f below] = _
        rw [hparent]
  | inline condition directives below =>
    cases condition with
    | none =>
      obtain ⟨inside, htold, hheard⟩ := selections_told v below w
      exact ⟨inside, .plain htold, hheard⟩
    | some t =>
      obtain ⟨inside, htold, hheard⟩ := selections_told v below (w.push (w.type? t))
      exact ⟨inside, .conditioned htold, hheard.pop⟩
  | spread fragment directives => exact ⟨_, .spread, rfl, rfl⟩

theorem selections_told (v : Visitor σ) (selections : List Selection) (w : Walk (σ × List Call)) :
    ∃ calls, Selection.ToldAll w.place.schema w.place.currentType selections calls ∧
      Heard calls w (v.called.selections selections w) := by
  cases selections with
  | nil => exact ⟨[], .nil, rfl, (List.append_nil _).symm⟩
  | cons sel rest =>
    obtain ⟨first, hfirst, hheard⟩ := selection_told v sel w
    obtain ⟨others, hothers, hheard'⟩ := selections_told v rest (v.called.selection sel w)
    rw [hheard.place] at hothers
    exact ⟨first ++ others, .cons hfirst hothers, hheard.append hheard'⟩

end

theorem operation_told (v : Visitor σ) (w : Walk (σ × List Call)) (entry : Option String × Operation) :
    ∃ calls, Operation.Told w.place.schema entry calls ∧ Heard calls w (v.called.operation w entry) := by
  obtain ⟨name, op⟩ := entry
  obtain ⟨inside, htold, hheard⟩ := selections_told v op.selections
    ((w.push (w.place.schema.root? op.kind)).tell fun p => v.called.enterOperation p name op)
  exact ⟨_, .intro htold, hheard.between rfl fun _ => rfl⟩

theorem fragment_told (v : Visitor σ) (w : Walk (σ × List Call)) (entry : String × Fragment) :
    ∃ calls, Fragment.Told w.place.schema entry calls ∧ Heard calls w (v.called.fragment w entry) := by
  obtain ⟨name, f⟩ := entry
  obtain ⟨inside, htold, hheard⟩ := selections_told v f.selections
    ((w.push (w.type? f.condition)).tell fun p => v.called.enterFragment p name f)
  exact ⟨_, .intro htold, hheard.between rfl fun _ => rfl⟩

/-- What is told of the definitions of a document, one after the other. -/
theorem foldl_told {α : Type} {visit : Walk (σ × List Call) → α → Walk (σ × List Call)}
    {Told : Schema → α → List Call → Prop}
    (hvisit : ∀ w x, ∃ calls, Told w.place.schema x calls ∧ Heard calls w (visit w x)) (xs : List α)
    (w : Walk (σ × List Call)) :
    ∃ calls, List.Forall₂ (Told w.place.schema) xs calls ∧ Heard calls.flatten w (xs.foldl visit w) := by
  induction xs generalizing w with
  | nil => exact ⟨[], .nil, rfl, (List.append_nil _).symm⟩
  | cons x rest ih =>
    obtain ⟨first, hfirst, hheard⟩ := hvisit w x
    obtain ⟨others, hothers, hheard'⟩ := ih (visit w x)
    rw [hheard.place] at hothers
    exact ⟨first :: others, .cons hfirst hothers, hheard.append hheard'⟩

/-- Every visitor is told of a document what the document says, whatever it skips. A field is
    entered in the type its selections are on and the type it leads to. Entering and leaving
    are brackets around what is inside: each field that is not skipped is left once, behind
    everything below it, and one that is skipped is not left, nor is anything below it told of.
    The calls are those of the visitor's own walk: writing them down does not change it. -/
theorem calls_told (v : Visitor σ) (schema : Schema) (document : Document) (supplied : Variables) (state : σ) :
    document.Told schema (v.calls schema document supplied state) ∧
      (v.called.walk schema document supplied (state, [])).1 = v.walk schema document supplied state := by
  refine ⟨?_, (called_simulates v document).walk_simulated rfl rfl schema supplied rfl⟩
  let start : Place := ⟨schema, document, supplied, []⟩
  let w : Walk (σ × List Call) := ⟨start, v.called.enterDocument start (state, [])⟩
  obtain ⟨operations, hoperations, hheard⟩ := foldl_told (operation_told v) document.operationsInOrder w
  obtain ⟨fragments, hfragments, hheard'⟩ :=
    foldl_told (fragment_told v) document.fragmentsInOrder (document.operationsInOrder.foldl v.called.operation w)
  rw [hheard.place] at hfragments
  have hplace : (document.operationsInOrder.foldl v.called.operation w).place = w.place := hheard.place
  have hdefinitions : (v.called.definitions w).state.2 = [.enterDocument] ++ operations.flatten ++ fragments.flatten := by
    rw [definitions, hplace, hheard'.heard, hheard.heard]
    rfl
  have hcalls : v.calls schema document supplied state = (v.called.definitions w).state.2 ++ [.exitDocument] := rfl
  rw [hcalls, hdefinitions]
  exact .intro hoperations hfragments

end Visitor

end QueryCost
