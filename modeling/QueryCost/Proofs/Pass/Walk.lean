/-
  QueryCost.Proofs.Pass.Walk — what a pass has built before it folds.

  Below an operation or a fragment a pass adds outlines to the tree and keeps everything
  else but the variables of the scope. The values of the scope are the same at every field,
  so the outlines are a function of the selections and of the values the scope has when it
  is entered.

  - `enterField_entered`: entering a field does what its role says.
  - `selections_walked`: walking selections grafts their outlines to the open node.
  - `operation_walked`, `fragment_walked`: the same for definitions; the body of a
    fragment is planted.
  - `values_operated`: behind the operations (`operated`) the variables of the fragments have
    not been coerced.
  - `definitions_walked`: the tree of a pass (`built`) is that of what its operations have
    grafted, with the bodies of its fragments.
-/

import QueryCost.Proofs.Pass.Outlines
import QueryCost.Proofs.Pass.Scope
import QueryCost.Validation

namespace QueryCost

namespace Pass

variable {document : Document} {supplied : Variables} {s s' : Pass}

/-! ## Nodes -/

theorem openChild_of_frames {top : NodeId} {rest : List NodeId} (h : s.frames = top :: rest) (n : CostNode) :
    s.openChild n = { s with
      tree := (s.tree.push n).attach top (.node s.tree.nextId), frames := s.tree.nextId :: top :: rest } := by
  simp only [openChild, attach, h]

theorem reopen_of_frames {top : NodeId} {rest : List NodeId} (h : s.frames = top :: rest) :
    s.reopen = { s with frames := top :: top :: rest } := by
  simp only [reopen, h]

theorem attach_of_frames {top : NodeId} {rest : List NodeId} (h : s.frames = top :: rest) (c : Child) :
    s.attach c = { s with tree := s.tree.attach top c } := by
  simp only [attach, h]

/-! ## Fields -/

/-- Entering a field does what its role says. -/
inductive Entered (p : Place) (s : Pass) : FieldRole → Flow × Pass → Prop
  | nothing {s' : Pass} : Quiet p.document p.supplied s s' → Entered p s .nothing (.skip, s')
  | passing : Entered p s .passing (.next, s.reopen)
  | counted {s' : Pass} {cost landing sizes} : Quiet p.document p.supplied s s' →
      Entered p s (.counted cost landing sizes) (.next, s'.openChild ⟨.field cost, landing, sizes, []⟩)

theorem enterField_entered (p : Place) (field : Field) (below : List Selection) (s : Pass)
    (hlanding : p.currentType = p.schema.landing p.parentType field.name) :
    Entered p s (fieldRole p.schema (s.valuesSeen p.document p.supplied) p.parentType field)
      (enterField p field below s) := by
  unfold enterField fieldRole
  split
  · exact .nothing (.refl _ _ s)
  · cases hparent : p.parentType with
    | none => exact .nothing ((Quiet.refl _ _ s).note _)
    | some parent =>
      simp only
      split
      · exact .passing
      · cases parent.field? field.name with
        | none => exact .nothing ((Quiet.refl _ _ s).note _)
        | some entry =>
          obtain ⟨hsizes, hquiet⟩ := multipliers_spec p field entry (p.schema.fieldCost parent field.name) s
          have hcost : landingCost p = p.schema.landingCost (p.schema.landing (some parent) field.name) := by
            rw [← hparent, ← hlanding]
            rfl
          simp only [← hsizes, ← hcost]
          generalize s.multipliers p field entry (p.schema.fieldCost parent field.name) = r at hquiet
          obtain ⟨sizes, s'⟩ := r
          cases sizes with
          | none => exact .nothing (hquiet.note _)
          | some sizes => exact .counted hquiet

/-! ## Selections -/

/-- The outlines are grafted to the node, and nothing else is built. -/
structure Walked (top : NodeId) (os : List Outline) (w w' : Walk Pass) : Prop where
  place : w'.place = w.place
  frames : w'.state.frames = w.state.frames
  tree : w'.state.tree = CostTree.graftAll top os w.state.tree
  kept : Kept w.place.document w.place.supplied w.state w'.state

variable {top : NodeId} {rest : List NodeId} {os os' : List Outline} {w w' w'' : Walk Pass}

theorem Walked.nil (top : NodeId) (w : Walk Pass) : Walked top [] w w := ⟨rfl, rfl, rfl, .refl _ _ _⟩

theorem Walked.append (h : Walked top os w w') (h' : Walked top os' w' w'') : Walked top (os ++ os') w w'' := by
  refine ⟨h'.place.trans h.place, h'.frames.trans h.frames, ?_, h.kept.trans (h.place ▸ h'.kept)⟩
  rw [h'.tree, h.tree, CostTree.graftAll_append]

/-- Walking inside a type, and leaving it. -/
theorem Walked.pop {t : Option TypeEntry} (h : Walked top os (w.push t) w') : Walked top os w w'.pop :=
  ⟨Walk.place_pop h.place, h.frames, h.tree, h.kept⟩

theorem selection_skipped {a : Analyzer} {f : Field} {below : List Selection}
    (h : enterField (w.push (w.landing f.name)).place f below w.state = (.skip, s')) :
    (visitor a).selection (.field f below) w = { w with state := s' } :=
  Visitor.selection_of_skip h

theorem selection_entered {a : Analyzer} {f : Field} {below : List Selection}
    (h : enterField (w.push (w.landing f.name)).place f below w.state = (.next, s')) :
    (visitor a).selection (.field f below) w =
      (((visitor a).selections below ⟨(w.push (w.landing f.name)).place, s'⟩).tell fun _ s => s.close).pop :=
  Visitor.selection_of_next h

mutual

theorem selection_walked (a : Analyzer) (sel : Selection) {top : NodeId} {rest : List NodeId} {w : Walk Pass}
    (hframes : w.state.frames = top :: rest) :
    Walked top (sel.outlines w.place.document w.place.schema
      (w.state.valuesSeen w.place.document w.place.supplied) w.place.currentType) w ((visitor a).selection sel w) := by
  cases sel with
  | field f below =>
    -- the type the field leads to is on top when it is entered, the one it is selected on below
    let p := (w.push (w.landing f.name)).place
    have hentered := enterField_entered p f below w.state (by rw [Walk.parentType_push, Walk.currentType_push]; rfl)
    have hparent : p.parentType = w.place.currentType := Walk.parentType_push w _
    rw [hparent] at hentered
    generalize hout : enterField p f below w.state = out at hentered
    have hrole : fieldRole p.schema (w.state.valuesSeen p.document p.supplied) w.place.currentType f =
      fieldRole w.place.schema (w.state.valuesSeen w.place.document w.place.supplied) w.place.currentType f := rfl
    rw [hrole] at hentered
    simp only [Selection.outlines]
    generalize hr : fieldRole w.place.schema (w.state.valuesSeen w.place.document w.place.supplied)
      w.place.currentType f = role at hentered
    cases hentered with
    | nothing hquiet =>
      rw [selection_skipped hout]
      exact ⟨rfl, hquiet.frames, hquiet.tree, hquiet.kept⟩
    | passing =>
      rw [selection_entered hout, reopen_of_frames hframes]
      have hbelow := selections_walked a below (w := ⟨p, { w.state with frames := top :: top :: rest }⟩) rfl
      refine ⟨Walk.place_pop hbelow.place, ?_, hbelow.tree, ?_⟩
      · show ((visitor a).selections below _).state.frames.tail = w.state.frames
        rw [hbelow.frames, hframes]
        rfl
      · have hreopen : Kept p.document p.supplied w.state { w.state with frames := top :: top :: rest } :=
          .of_eq rfl rfl rfl rfl
        exact (hreopen.trans hbelow.kept).trans (.of_eq rfl rfl rfl rfl)
    | @counted s' cost landing sizes hquiet =>
      have hframes' : s'.frames = top :: rest := hquiet.frames.trans hframes
      rw [selection_entered hout, openChild_of_frames hframes']
      let opened : Pass := { s' with
        tree := (s'.tree.push ⟨.field cost, landing, sizes, []⟩).attach top (.node s'.tree.nextId)
        frames := s'.tree.nextId :: top :: rest }
      have hopened : Kept p.document p.supplied s' opened := .of_eq rfl rfl rfl rfl
      have hbelow := selections_walked a below (w := ⟨p, opened⟩) rfl
      have hvalues := (hquiet.kept.trans hopened).values
      refine ⟨Walk.place_pop hbelow.place, ?_, ?_, ?_⟩
      · show ((visitor a).selections below _).state.frames.tail = w.state.frames
        rw [hbelow.frames, hframes]
        rfl
      · show ((visitor a).selections below _).state.tree = _
        rw [hbelow.tree, hvalues, ← hquiet.tree]
        rfl
      · exact ((hquiet.kept.trans hopened).trans hbelow.kept).trans (.of_eq rfl rfl rfl rfl)
  | inline condition directives below =>
    cases condition with
    | none => exact selections_walked a below hframes
    | some t => exact (selections_walked a below (w := w.push (w.type? t)) hframes).pop
  | spread f directives =>
    show Walked top _ w ⟨w.place, w.state.spread w.place f⟩
    simp only [Selection.outlines, spread]
    cases w.place.document.fragment? f with
    | none => exact ⟨rfl, rfl, rfl, .of_eq rfl rfl rfl rfl⟩
    | some fragment =>
      simp only [attach_of_frames hframes]
      exact ⟨rfl, rfl, rfl, .of_eq rfl rfl rfl rfl⟩

theorem selections_walked (a : Analyzer) (selections : List Selection) {top : NodeId} {rest : List NodeId}
    {w : Walk Pass} (hframes : w.state.frames = top :: rest) :
    Walked top (Selection.outlinesAll w.place.document w.place.schema
      (w.state.valuesSeen w.place.document w.place.supplied) w.place.currentType selections) w
      ((visitor a).selections selections w) := by
  cases selections with
  | nil => exact .nil top w
  | cons sel others =>
    have hfirst := selection_walked a sel hframes
    have hothers := selections_walked a others (hfirst.frames.trans hframes)
    rw [hfirst.place, hfirst.kept.values] at hothers
    exact hfirst.append hothers

end

/-! ## Definitions -/

/-- What walking definitions keeps. -/
structure Between (w w' : Walk Pass) : Prop where
  place : w'.place = w.place
  frames : w'.state.frames = w.state.frames
  operations : w'.state.operations = w.state.operations
  result : w'.state.result = w.state.result
  errors : ∀ e ∈ w'.state.errors, e ∈ w.state.errors ∨ e.cause.isVariable = true

theorem Between.refl (w : Walk Pass) : Between w w := ⟨rfl, rfl, rfl, rfl, fun _ h => .inl h⟩

theorem Between.trans (h : Between w w') (h' : Between w' w'') : Between w w'' := by
  refine ⟨h'.place.trans h.place, h'.frames.trans h.frames, h'.operations.trans h.operations,
    h'.result.trans h.result, fun e he => ?_⟩
  rcases h'.errors e he with he | he
  · exact h.errors e he
  · exact .inr he

/-- The values an operation's variables have when it is entered. -/
def operationValues (w : Walk Pass) (op : Operation) : Option Variables :=
  { w.state with operations := op :: w.state.operations }.valuesSeen w.place.document w.place.supplied

theorem scope_entered (s : Pass) (op : Operation) :
    { s with operations := op :: s.operations }.scope = some op.position := rfl

/-- An operation has the values kept for its position, or else those of its variables. -/
theorem operationValues_eq (w : Walk Pass) (op : Operation) :
    operationValues w op = (w.state.coerced.get? (some op.position)).getD
      (coercedValues op.variableDefinitions w.place.supplied) := by
  simp only [operationValues, valuesSeen, scope_entered]
  cases w.state.coerced.get? (some op.position) <;> rfl

theorem operation_walked (a : Analyzer) (name : Option String) (op : Operation)
    (hframes : w.state.frames = top :: rest) :
    Between w ((visitor a).operation w (name, op)) ∧
      ((visitor a).operation w (name, op)).state.tree = CostTree.graftAll top
        (w.place.document.operationOutlines w.place.schema (operationValues w op) op) w.state.tree ∧
      (∀ k, k ≠ some op.position →
        ((visitor a).operation w (name, op)).state.coerced.get? k = w.state.coerced.get? k) ∧
      operationValues ((visitor a).operation w (name, op)) op = operationValues w op := by
  let entered : Walk Pass :=
    ⟨(w.push (w.place.schema.root? op.kind)).place, { w.state with operations := op :: w.state.operations }⟩
  have hwalked := selections_walked a op.selections (w := entered) hframes
  have hplace : ((visitor a).operation w (name, op)).place = w.place := Walk.place_pop hwalked.place
  have hoperations : ((visitor a).selections op.selections entered).state.operations = op :: w.state.operations :=
    hwalked.kept.operations
  refine ⟨⟨hplace, hwalked.frames, ?_, hwalked.kept.result, hwalked.kept.errors⟩, hwalked.tree,
    hwalked.kept.elsewhere, ?_⟩
  · show ((visitor a).selections op.selections entered).state.operations.tail = w.state.operations
    rw [hoperations]
    rfl
  · -- the values were the same when the operation was left
    have hvalues : ((visitor a).selections op.selections entered).state.valuesSeen w.place.document w.place.supplied =
        operationValues w op := hwalked.kept.values
    have hscope : ((visitor a).selections op.selections entered).state.scope = some op.position :=
      (scope_of_operations hoperations).trans (scope_entered w.state op)
    rw [operationValues_eq, hplace, ← hvalues]
    simp only [valuesSeen, hscope, scopeDefinitions, hoperations]
    show (((visitor a).selections op.selections entered).state.coerced.get? (some op.position)).getD _ = _
    cases ((visitor a).selections op.selections entered).state.coerced.get? (some op.position) <;> rfl

/-- Operations coerce no scopes but their own. -/
theorem operations_walked (a : Analyzer) (ops : List (Option String × Operation)) {w : Walk Pass}
    (hframes : w.state.frames = top :: rest) :
    Between w (ops.foldl (visitor a).operation w) ∧
      ∀ k, (∀ op ∈ ops, k ≠ some op.2.position) →
        (ops.foldl (visitor a).operation w).state.coerced.get? k = w.state.coerced.get? k := by
  induction ops generalizing w with
  | nil => exact ⟨.refl w, fun _ _ => rfl⟩
  | cons entry others ih =>
    obtain ⟨name, op⟩ := entry
    obtain ⟨hbetween, -, helsewhere, -⟩ := operation_walked a name op hframes
    obtain ⟨hbetween', helsewhere'⟩ := ih (hbetween.frames.trans hframes)
    refine ⟨hbetween.trans hbetween', fun k hk => ?_⟩
    have hothers := helsewhere' k fun o ho => hk o (List.mem_cons_of_mem _ ho)
    exact hothers.trans (helsewhere k (hk _ (List.mem_cons_self ..)))

theorem fragment_walked (a : Analyzer) (name : String) (f : Fragment) (w : Walk Pass) :
    Between w ((visitor a).fragment w (name, f)) ∧
      ((visitor a).fragment w (name, f)).state.tree = w.state.tree.plant (name,
        Selection.outlinesAll w.place.document w.place.schema (w.state.valuesSeen w.place.document w.place.supplied)
          (w.place.schema.type? f.condition) f.selections) ∧
      (∀ k, k ≠ w.state.scope →
        ((visitor a).fragment w (name, f)).state.coerced.get? k = w.state.coerced.get? k) ∧
      ((visitor a).fragment w (name, f)).state.valuesSeen w.place.document w.place.supplied =
        w.state.valuesSeen w.place.document w.place.supplied := by
  let entered : Walk Pass := ⟨(w.push (w.type? f.condition)).place, w.state.enterFragment name⟩
  have hwalked := selections_walked a f.selections (w := entered) rfl
  refine ⟨⟨Walk.place_pop hwalked.place, ?_, hwalked.kept.operations, hwalked.kept.result, hwalked.kept.errors⟩,
    hwalked.tree, hwalked.kept.elsewhere, hwalked.kept.values⟩
  show ((visitor a).selections f.selections entered).state.frames.tail = w.state.frames
  rw [hwalked.frames]
  rfl

/-- Fragments coerce no scope but the one they share, and its values stay the same. -/
theorem fragments_walked (a : Analyzer) (fragments : List (String × Fragment)) (w : Walk Pass) :
    Between w (fragments.foldl (visitor a).fragment w) ∧
      (fragments.foldl (visitor a).fragment w).state.tree = (fragments.map fun f => (f.1,
        Selection.outlinesAll w.place.document w.place.schema (w.state.valuesSeen w.place.document w.place.supplied)
          (w.place.schema.type? f.2.condition) f.2.selections)).foldl CostTree.plant w.state.tree ∧
      (∀ k, k ≠ w.state.scope →
        (fragments.foldl (visitor a).fragment w).state.coerced.get? k = w.state.coerced.get? k) ∧
      (fragments.foldl (visitor a).fragment w).state.valuesSeen w.place.document w.place.supplied =
        w.state.valuesSeen w.place.document w.place.supplied := by
  induction fragments generalizing w with
  | nil => exact ⟨.refl w, rfl, fun _ _ => rfl, rfl⟩
  | cons entry others ih =>
    obtain ⟨name, f⟩ := entry
    obtain ⟨hbetween, htree, helsewhere, hvalues⟩ := fragment_walked a name f w
    obtain ⟨hbetween', htree', helsewhere', hvalues'⟩ := ih ((visitor a).fragment w (name, f))
    rw [hbetween.place, hvalues, htree] at htree'
    rw [scope_of_operations hbetween.operations] at helsewhere'
    rw [hbetween.place, hvalues] at hvalues'
    refine ⟨hbetween.trans hbetween', htree', fun k hk => ?_, hvalues'⟩
    exact (helsewhere' k hk).trans (helsewhere k hk)

/-! ## The tree of a pass -/

/-- The walk in the document, before its definitions. -/
def entered (schema : Schema) (document : Document) (supplied : Variables) : Walk Pass :=
  ⟨⟨schema, document, supplied, []⟩, start.openDetached .container⟩

/-- The state in which a pass folds. -/
def built (a : Analyzer) (schema : Schema) (document : Document) (supplied : Variables) : Pass :=
  ((visitor a).definitions (entered schema document supplied)).state

/-- The walk behind the operations, before the fragments. -/
def operated (a : Analyzer) (schema : Schema) (document : Document) (supplied : Variables) : Walk Pass :=
  document.operationsInOrder.foldl (visitor a).operation (entered schema document supplied)

section

variable (a : Analyzer) (schema : Schema) (document : Document) (supplied : Variables)

theorem between_operated : Between (entered schema document supplied) (operated a schema document supplied) :=
  (operations_walked a document.operationsInOrder rfl).1

theorem place_operated : (operated a schema document supplied).place = ⟨schema, document, supplied, []⟩ :=
  (between_operated a schema document supplied).place

theorem operations_operated : (operated a schema document supplied).state.operations = [] :=
  (between_operated a schema document supplied).operations

/-- Behind the operations the scope is that of the fragments. -/
theorem scope_operated : (operated a schema document supplied).state.scope = none := by
  rw [scope, operations_operated]
  rfl

theorem scopeDefinitions_operated :
    (operated a schema document supplied).state.scopeDefinitions document = document.fragmentScopeDefinitions := by
  rw [scopeDefinitions, operations_operated]

/-- No operation has coerced the variables of the fragments. -/
theorem values_operated :
    (operated a schema document supplied).state.valuesSeen document supplied =
      coercedValues document.fragmentScopeDefinitions supplied := by
  have hnone : (operated a schema document supplied).state.coerced.get? none = none :=
    (operations_walked a document.operationsInOrder rfl).2 none nofun
  rw [valuesSeen, scope_operated, hnone, scopeDefinitions_operated]

theorem definitions_eq :
    (visitor a).definitions (entered schema document supplied) =
      document.fragmentsInOrder.foldl (visitor a).fragment (operated a schema document supplied) := by
  have hplace := place_operated a schema document supplied
  show (operated a schema document supplied).place.document.fragmentsInOrder.foldl (visitor a).fragment _ = _
  rw [hplace]
  rfl

end

/-- The tree of the outlines of the operations and the bodies of the fragments is built,
    and nothing but variables is reported. -/
structure BuiltFrom (schema : Schema) (document : Document) (supplied : Variables) (parts : List Outline) (s : Pass) :
    Prop where
  frames : s.frames = [0]
  result : s.result = none
  errors : ∀ e ∈ s.errors, e.cause.isVariable = true
  tree : s.tree = (document.bodies schema supplied).foldl CostTree.plant (.rooted parts)

/-- The fragments are built apart, whatever the operations have grafted. -/
theorem definitions_walked (a : Analyzer) (schema : Schema) (document : Document) (supplied : Variables)
    {parts : List Outline} (hparts : (operated a schema document supplied).state.tree = .rooted parts) :
    BuiltFrom schema document supplied parts (built a schema document supplied) := by
  obtain ⟨hbetween, htree, -⟩ := fragments_walked a document.fragmentsInOrder (operated a schema document supplied)
  have hall := (between_operated a schema document supplied).trans hbetween
  rw [built, definitions_eq]
  refine ⟨hall.frames, hall.result, fun e he => ?_, ?_⟩
  · rcases hall.errors e he with he | he
    · cases he
    · exact he
  · rw [place_operated, values_operated, hparts] at htree
    exact htree

/-- A pass folds what it has built. -/
theorem runPass_eq (a : Analyzer) (schema : Schema) (document : Document) (supplied : Variables) :
    runPass a schema document supplied =
      (built a schema document supplied).finish a ⟨schema, document, supplied, []⟩ := by
  obtain ⟨hbetween, -⟩ := fragments_walked a document.fragmentsInOrder (operated a schema document supplied)
  have hplace : ((visitor a).definitions (entered schema document supplied)).place =
      ⟨schema, document, supplied, []⟩ := by
    rw [definitions_eq, hbetween.place, place_operated]
  show (visitor a).exitDocument ((visitor a).definitions (entered schema document supplied)).place
    (built a schema document supplied) = _
  rw [hplace]
  rfl

end Pass

end QueryCost
