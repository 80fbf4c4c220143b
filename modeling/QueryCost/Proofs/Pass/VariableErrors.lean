/-
  QueryCost.Proofs.Pass.VariableErrors — what a pass reports about variables.

  The variables of a scope are coerced when the first field is entered whose sizes need
  them, and what is wrong with them is reported then, once. A field that is pruned because
  they have no values has needed them itself. So whether a scope needs its variables can be
  read off the selections without their values (`Selection.needsValues`), and in which order
  the fields are met makes no difference to what is reported.

  - `enterField_visited`: entering a field coerces the variables exactly where its role needs
    them, and what is below a field is left out only where that adds nothing.
  - `selections_settled`: the same for selections, by going through them.
  - `operation_settled`, `fragments_settled`: an operation has its scope coerced and reports
    its errors where it needs its variables and the scope is new, and so have the fragments
    together.
-/

import QueryCost.Proofs.Pass.Walk

namespace QueryCost

/-- What is wrong with the variables of these definitions. -/
def coercionErrors (definitions : List VariableDefinition) (supplied : Variables) : List RuleError :=
  match coerceVariables definitions supplied with
  | .ok _ => []
  | .error errors => errors

/-! ## Selections that need variables -/

/-- The sizes of the field come from arguments, so from the values of the variables. -/
def FieldRole.needsValues : FieldRole → Bool
  | .counted cost _ _ => (cost.bind (·.sizeArguments?)).isSome
  | .nothing | .passing => false

mutual

/-- A field that is reached needs the values of the variables. Reached are the fields that
    are when the variables have values. -/
def Selection.needsValues (schema : Schema) : Option TypeEntry → Selection → Bool
  | parent, .field f below =>
    match fieldRole schema (some ∅) parent f with
    | .nothing => false
    | role => role.needsValues || needsValuesAll schema (schema.landing parent f.name) below
  | _, .inline (some t) _ below => needsValuesAll schema (schema.type? t) below
  | parent, .inline none _ below => needsValuesAll schema parent below
  | _, .spread _ _ => false

def Selection.needsValuesAll (schema : Schema) : Option TypeEntry → List Selection → Bool
  | _, [] => false
  | parent, s :: rest => s.needsValues schema parent || needsValuesAll schema parent rest

end

theorem Selection.needsValuesAll_append {schema : Schema} (parent : Option TypeEntry)
    (selections selections' : List Selection) :
    needsValuesAll schema parent (selections ++ selections') =
      (needsValuesAll schema parent selections || needsValuesAll schema parent selections') := by
  induction selections with
  | nil => rfl
  | cons s rest ih => rw [List.cons_append, needsValuesAll, needsValuesAll, ih, Bool.or_assoc]

theorem Selection.needsValuesAll_singleton {schema : Schema} (parent : Option TypeEntry) (s : Selection) :
    needsValuesAll schema parent [s] = s.needsValues schema parent := by
  rw [needsValuesAll, needsValuesAll, Bool.or_false]

/-- A field needs values where its role does or what is below it, unless it counts for nothing. -/
theorem Selection.needsValues_of_entered {schema : Schema} {parent : Option TypeEntry} {f : Field}
    (h : fieldRole schema (some ∅) parent f ≠ .nothing) (below : List Selection) :
    (Selection.field f below).needsValues schema parent =
      ((fieldRole schema (some ∅) parent f).needsValues || needsValuesAll schema (schema.landing parent f.name) below) := by
  unfold needsValues
  cases hrole : fieldRole schema (some ∅) parent f with
  | nothing => exact absurd hrole h
  | passing => rfl
  | counted cost landing sizes => rfl

/-- Where what is below a field adds nothing, it needs what its role needs. -/
theorem Selection.needsValues_of_left {schema : Schema} {parent : Option TypeEntry} {f : Field}
    (h : fieldRole schema (some ∅) parent f = .nothing ∨ (fieldRole schema (some ∅) parent f).needsValues = true)
    (below : List Selection) :
    (Selection.field f below).needsValues schema parent = (fieldRole schema (some ∅) parent f).needsValues := by
  rcases h with h | h
  · simp only [needsValues, h, FieldRole.needsValues]
  · by_cases hnothing : fieldRole schema (some ∅) parent f = .nothing
    · simp only [needsValues, hnothing, FieldRole.needsValues]
    · rw [needsValues_of_entered hnothing, h, Bool.true_or]

namespace Document

variable (document : Document) (schema : Schema) (supplied : Variables)

def operationErrors (op : Operation) : List RuleError :=
  if Selection.needsValuesAll schema (schema.root? op.kind) op.selections then
    coercionErrors op.variableDefinitions supplied
  else []

/-- Some fragment needs the variables of the fragments. -/
def fragmentsNeedValues : Bool :=
  document.fragmentsInOrder.any fun f =>
    Selection.needsValuesAll schema (schema.type? f.2.condition) f.2.selections

/-- What is wrong with the variables of the scopes that need theirs, in the order of the
    scopes. -/
def scopeErrors : List RuleError :=
  (document.operationsInOrder.flatMap fun op => operationErrors schema supplied op.2) ++
    if document.fragmentsNeedValues schema then coercionErrors document.fragmentScopeDefinitions supplied else []

end Document

namespace Pass

variable {document : Document} {supplied : Variables} {needed needed' : Bool} {s s' s'' : Pass}

/-! ## Scopes that are settled -/

/-- The variables of the scope have been coerced. -/
def isCoerced (s : Pass) : Bool := s.coerced.contains s.scope

/-- Where they are needed, the variables of the scope have been coerced and what is wrong
    with them was reported, if that had not been done before. No other scope was coerced. -/
structure Settled (document : Document) (supplied : Variables) (needed : Bool) (s s' : Pass) : Prop where
  operations : s'.operations = s.operations
  keys : s'.coerced.keys = if needed && !s.isCoerced then s.coerced.keys ++ [s.scope] else s.coerced.keys
  errors : s'.errors =
    if needed && !s.isCoerced then (coercionErrors (s.scopeDefinitions document) supplied).foldl addNew s.errors
    else s.errors

theorem isCoerced_iff (s : Pass) : s.isCoerced = true ↔ s.scope ∈ s.coerced.keys :=
  s.coerced.contains_iff_mem_keys s.scope

theorem Settled.coerced (h : Settled document supplied needed s s') : s'.isCoerced = (s.isCoerced || needed) := by
  rw [Bool.eq_iff_iff, isCoerced_iff, scope_of_operations h.operations, h.keys]
  have hbefore := isCoerced_iff s
  cases needed <;> cases hseen : s.isCoerced <;> simp [← hbefore, hseen]

/-- A state with the same variables and errors. -/
theorem Settled.of_eq (hoperations : s'.operations = s.operations) (hcoerced : s'.coerced = s.coerced)
    (herrors : s'.errors = s.errors) : Settled document supplied false s s' :=
  ⟨hoperations, congrArg Table.keys hcoerced, herrors⟩

theorem Settled.trans (h : Settled document supplied needed s s') (h' : Settled document supplied needed' s' s'') :
    Settled document supplied (needed || needed') s s'' := by
  have hscope : s'.scope = s.scope := scope_of_operations h.operations
  have hdefinitions : s'.scopeDefinitions document = s.scopeDefinitions document := by
    simp only [scopeDefinitions, h.operations]
  refine ⟨h'.operations.trans h.operations, ?_, ?_⟩
  · rw [h'.keys, h.coerced, h.keys, hscope]
    cases needed <;> cases needed' <;> cases s.isCoerced <;> rfl
  · rw [h'.errors, h.coerced, h.errors, hdefinitions]
    cases needed <;> cases needed' <;> cases s.isCoerced <;> rfl

/-- A scope stays settled by what leaves variables and errors alone. -/
theorem Settled.then_eq (h : Settled document supplied needed s s') (hoperations : s''.operations = s'.operations)
    (hcoerced : s''.coerced = s'.coerced) (herrors : s''.errors = s'.errors) :
    Settled document supplied needed s s'' := by
  have hboth := h.trans (.of_eq hoperations hcoerced herrors)
  rwa [Bool.or_false] at hboth

theorem Settled.attach (h : Settled document supplied needed s s') (c : Child) :
    Settled document supplied needed s (s'.attach c) := by
  unfold Pass.attach
  cases s'.frames with
  | nil => exact h
  | cons top rest => exact h.then_eq rfl rfl rfl

theorem Settled.reopen (h : Settled document supplied needed s s') :
    Settled document supplied needed s s'.reopen := by
  unfold Pass.reopen
  cases s'.frames with
  | nil => exact h
  | cons top rest => exact h.then_eq rfl rfl rfl

theorem Settled.openChild (h : Settled document supplied needed s s') (n : CostNode) :
    Settled document supplied needed s (s'.openChild n) := by
  have hpushed : Settled document supplied needed s { s' with tree := s'.tree.push n } := h.then_eq rfl rfl rfl
  exact (hpushed.attach _).then_eq rfl rfl rfl

theorem scopeValues_settled (p : Place) (s : Pass) : Settled p.document p.supplied true s (s.scopeValues p).2 := by
  unfold scopeValues
  cases hseen : s.coerced.get? s.scope with
  | some values =>
    have hcoerced : s.isCoerced = true := by simp [isCoerced, Table.contains, hseen]
    exact ⟨rfl, by simp [hcoerced], by simp [hcoerced]⟩
  | none =>
    have hcoerced : s.isCoerced = false := by simp [isCoerced, Table.contains, hseen]
    have hinserted : ∀ values, (s.coerced.insert s.scope values).keys = s.coerced.keys ++ [s.scope] := by
      intro values
      have hnew : s.scope ∉ s.coerced.keys := by simp [← isCoerced_iff, hcoerced]
      rw [Table.keys_insert, if_neg hnew]
    simp only
    cases hcoerce : coerceVariables (s.scopeDefinitions p.document) p.supplied with
    | ok values =>
      refine ⟨rfl, ?_, ?_⟩
      · simp [hcoerced, hinserted]
      · simp [coercionErrors, hcoerce]
    | error errors =>
      simp only [foldl_reportNew]
      refine ⟨rfl, ?_, ?_⟩
      · rw [hcoerced]
        exact hinserted none
      · simp only [coercionErrors, hcoerce, hcoerced]
        rfl

theorem multipliers_settled (p : Place) (field : Field) (entry : FieldEntry) (cost : Option DeclaredCost) (s : Pass) :
    Settled p.document p.supplied (cost.bind (·.sizeArguments?)).isSome s (s.multipliers p field entry cost).2 := by
  unfold multipliers
  cases cost.bind (·.sizeArguments?) with
  | none => exact .of_eq rfl rfl rfl
  | some names =>
    have hsettled := scopeValues_settled p s
    generalize s.scopeValues p = r at hsettled
    obtain ⟨values, s'⟩ := r
    cases values with
    | none => exact hsettled
    | some values => exact hsettled

/-! ## Fields -/

/-- What entering a field does about the variables, by the role it has when they have values:
    a field that is left counts for nothing or has needed them. -/
inductive Visited (p : Place) (s : Pass) (role : FieldRole) : Flow × Pass → Prop
  | left {s' : Pass} : role = .nothing ∨ role.needsValues = true →
      Settled p.document p.supplied role.needsValues s s' → Visited p s role (.skip, s')
  | entered {s' : Pass} : role ≠ .nothing → Settled p.document p.supplied role.needsValues s s' →
      Visited p s role (.next, s')

theorem Visited.settled {p : Place} {role : FieldRole} {out : Flow × Pass} (h : Visited p s role out) :
    Settled p.document p.supplied role.needsValues s out.2 := by
  cases h with
  | left _ hsettled => exact hsettled
  | entered _ hsettled => exact hsettled

theorem enterField_visited (p : Place) (field : Field) (below : List Selection) (s : Pass) :
    Visited p s (fieldRole p.schema (some ∅) p.parentType field) (enterField p field below s) := by
  have hstart : Settled p.document p.supplied false s s := .of_eq rfl rfl rfl
  unfold enterField fieldRole
  split
  · exact .left (.inl rfl) hstart
  · cases p.parentType with
    | none => exact .left (.inl rfl) (hstart.then_eq rfl rfl rfl)
    | some parent =>
      simp only
      split
      · exact .entered (by simp) hstart.reopen
      · cases parent.field? field.name with
        | none => exact .left (.inl rfl) (hstart.then_eq rfl rfl rfl)
        | some entry =>
          have hsettled := multipliers_settled p field entry (p.schema.fieldCost parent field.name) s
          obtain ⟨hsizes, -⟩ := multipliers_spec p field entry (p.schema.fieldCost parent field.name) s
          unfold listSizes at hsizes ⊢
          simp only
          generalize s.multipliers p field entry (p.schema.fieldCost parent field.name) = r at hsettled hsizes
          obtain ⟨sizes, s'⟩ := r
          cases hneeds : (p.schema.fieldCost parent field.name).bind (·.sizeArguments?) with
          | none =>
            -- a field that needs no values is never pruned
            rw [hneeds] at hsizes
            cases hsizes
            exact .entered (by simp) (hsettled.openChild _)
          | some names =>
            cases sizes with
            | none =>
              refine .left (.inr ?_) (hsettled.then_eq rfl rfl rfl)
              simp [FieldRole.needsValues, hneeds]
            | some sizes => exact .entered (by simp) (hsettled.openChild _)

/-! ## Selections -/

mutual

theorem selection_settled (a : Analyzer) (sel : Selection) (w : Walk Pass) :
    ((visitor a).selection sel w).place = w.place ∧
      Settled w.place.document w.place.supplied (sel.needsValues w.place.schema w.place.currentType) w.state
        ((visitor a).selection sel w).state := by
  cases sel with
  | field f below =>
    let p := (w.push (w.landing f.name)).place
    have hvisited : Visited p w.state (fieldRole w.place.schema (some ∅) w.place.currentType f)
        (enterField p f below w.state) := by
      rw [← Walk.parentType_push w (w.landing f.name)]
      exact enterField_visited p f below w.state
    generalize hout : enterField p f below w.state = out at hvisited
    cases hvisited with
    | left hleft hsettled =>
      rw [selection_skipped hout, Selection.needsValues_of_left hleft]
      exact ⟨rfl, hsettled⟩
    | @entered s' hentered hsettled =>
      obtain ⟨hplace, hbelow⟩ := selections_settled a below ⟨p, s'⟩
      rw [selection_entered hout, Selection.needsValues_of_entered hentered]
      exact ⟨Walk.place_pop hplace, (hsettled.trans hbelow).then_eq rfl rfl rfl⟩
  | inline condition directives below =>
    cases condition with
    | none => exact selections_settled a below w
    | some t =>
      obtain ⟨hplace, hbelow⟩ := selections_settled a below (w.push (w.type? t))
      exact ⟨Walk.place_pop hplace, hbelow⟩
  | spread f directives =>
    refine ⟨rfl, ?_⟩
    show Settled w.place.document w.place.supplied false w.state (w.state.spread w.place f)
    have hstart : Settled w.place.document w.place.supplied false w.state w.state := .of_eq rfl rfl rfl
    unfold spread
    cases w.place.document.fragment? f with
    | none => exact hstart.then_eq rfl rfl rfl
    | some fragment => exact hstart.attach _

theorem selections_settled (a : Analyzer) (selections : List Selection) (w : Walk Pass) :
    ((visitor a).selections selections w).place = w.place ∧
      Settled w.place.document w.place.supplied
        (Selection.needsValuesAll w.place.schema w.place.currentType selections) w.state
        ((visitor a).selections selections w).state := by
  cases selections with
  | nil => exact ⟨rfl, .of_eq rfl rfl rfl⟩
  | cons sel others =>
    obtain ⟨hplace, hfirst⟩ := selection_settled a sel w
    obtain ⟨hplace', hothers⟩ := selections_settled a others ((visitor a).selection sel w)
    rw [hplace] at hothers
    exact ⟨hplace'.trans hplace, hfirst.trans hothers⟩

end

/-! ## Definitions -/

/-- An operation that needs its variables has its scope coerced and its errors reported,
    unless the scope was coerced before. -/
theorem operation_settled (a : Analyzer) (name : Option String) (op : Operation) (w : Walk Pass) :
    ((visitor a).operation w (name, op)).place = w.place ∧
      ((visitor a).operation w (name, op)).state.operations = w.state.operations ∧
      ((visitor a).operation w (name, op)).state.coerced.keys =
        (if Selection.needsValuesAll w.place.schema (w.place.schema.root? op.kind) op.selections &&
            !w.state.coerced.contains (some op.position) then
          w.state.coerced.keys ++ [some op.position] else w.state.coerced.keys) ∧
      ((visitor a).operation w (name, op)).state.errors =
        if Selection.needsValuesAll w.place.schema (w.place.schema.root? op.kind) op.selections &&
            !w.state.coerced.contains (some op.position) then
          (coercionErrors op.variableDefinitions w.place.supplied).foldl addNew w.state.errors
        else w.state.errors := by
  let entered : Walk Pass :=
    ⟨(w.push (w.place.schema.root? op.kind)).place, { w.state with operations := op :: w.state.operations }⟩
  obtain ⟨hplace, hsettled⟩ := selections_settled a op.selections entered
  refine ⟨Walk.place_pop hplace, ?_, hsettled.keys, hsettled.errors⟩
  show ((visitor a).selections op.selections entered).state.operations.tail = w.state.operations
  rw [hsettled.operations]
  rfl

/-- The fragments settle the scope they share. -/
theorem fragments_settled (a : Analyzer) (fragments : List (String × Fragment)) (w : Walk Pass) :
    Settled w.place.document w.place.supplied
      (fragments.any fun f => Selection.needsValuesAll w.place.schema (w.place.schema.type? f.2.condition) f.2.selections)
      w.state (fragments.foldl (visitor a).fragment w).state := by
  induction fragments generalizing w with
  | nil => exact .of_eq rfl rfl rfl
  | cons entry others ih =>
    obtain ⟨name, f⟩ := entry
    let entered : Walk Pass := ⟨(w.push (w.type? f.condition)).place, w.state.enterFragment name⟩
    obtain ⟨hplace, hbody⟩ := selections_settled a f.selections entered
    have hentered : Settled w.place.document w.place.supplied false w.state entered.state := .of_eq rfl rfl rfl
    have hfirst : Settled w.place.document w.place.supplied
        (Selection.needsValuesAll w.place.schema (w.place.schema.type? f.condition) f.selections)
        w.state ((visitor a).fragment w (name, f)).state := (hentered.trans hbody).then_eq rfl rfl rfl
    have hothers := ih ((visitor a).fragment w (name, f))
    have hsame : ((visitor a).fragment w (name, f)).place = w.place := Walk.place_pop hplace
    rw [hsame] at hothers
    exact hfirst.trans hothers

end Pass

end QueryCost
