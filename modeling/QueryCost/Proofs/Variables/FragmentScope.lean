/-
  QueryCost.Proofs.Variables.FragmentScope — what the variables of the fragments come to.

  For the fragments a variable is defined as it is first defined in the first operation that
  defines it. In that operation itself a default given later replaces one given before. So the
  two give a variable the same value where it is supplied, and where nothing but the first
  definition of it in that operation has a say about its default.

  - `find?_foldl_addDefinition`, `nodup_foldl_addDefinition`: the definitions of the fragments
    are the first ones of their names, and `names_foldl_addDefinition` in which order.
  - `find?_operationsInOrder`: the first definition of a variable is in the first operation that
    defines it.
  - `fragmentScope_listed`: all there is to say about the definitions of the fragments.
  - `fragment_value_agrees`: when the fragments and that operation have the same value for it.
  - `fragment_value_differs`: an operation that defines a variable twice.
-/

import QueryCost.Proofs.Pass.EntryOrder
import QueryCost.Proofs.Variables.Coercion

namespace QueryCost

/-- The default of the first definition of a name. -/
def firstDefault (definitions : List VariableDefinition) (x : String) : Option Constant :=
  (definitions.find? (·.name = x)).bind (·.defaultValue)

/-! ## Names that are defined once -/

section

variable {definitions : List VariableDefinition} {x : String}

/-- A name that is defined once has no default but that of its definition. -/
theorem lastDefault_of_count_le_one (h : (definitions.map (·.name)).count x ≤ 1) :
    lastDefault definitions x = firstDefault definitions x := by
  induction definitions with
  | nil => rfl
  | cons d rest ih =>
    by_cases hname : d.name = x
    · have hrest : x ∉ rest.map (·.name) := by
        rw [List.map_cons, hname, List.count_cons_self] at h
        exact List.count_eq_zero.mp (by omega)
      simp only [lastDefault, firstDefault, List.filter_cons, List.find?_cons, hname, decide_true, if_true,
        filter_eq_nil_of_undefined hrest]
      cases hdefault : d.defaultValue <;> simp [hdefault]
    · rw [List.map_cons, List.count_cons_of_ne hname] at h
      simpa [lastDefault, firstDefault, hname] using ih h

/-- The names stay distinct. -/
theorem nodup_addDefinition {acc : List VariableDefinition} (h : (acc.map (·.name)).Nodup) (d : VariableDefinition) :
    ((addDefinition acc d).map (·.name)).Nodup := by
  unfold addDefinition
  split
  · rename_i hnew
    rw [List.map_append, List.map_singleton]
    refine NameSet.nodup_concat h ?_
    intro hmem
    obtain ⟨d', hd', hname⟩ := List.mem_map.mp hmem
    simpa [hname] using List.all_eq_true.mp hnew d' hd'
  · exact h

theorem nodup_foldl_addDefinition {acc : List VariableDefinition} (h : (acc.map (·.name)).Nodup) :
    ((definitions.foldl addDefinition acc).map (·.name)).Nodup := by
  induction definitions generalizing acc with
  | nil => exact h
  | cons d rest ih => exact ih (nodup_addDefinition h d)

theorem find?_addDefinition (acc : List VariableDefinition) (d : VariableDefinition) (x : String) :
    (addDefinition acc d).find? (·.name = x) = (acc ++ [d]).find? (·.name = x) := by
  unfold addDefinition
  split
  · rfl
  · rename_i hknown
    rw [List.find?_append]
    by_cases hname : d.name = x
    · have hsome : (acc.find? (·.name = x)).isSome = true := by
        simpa [hname] using hknown
      rw [Option.or_of_isSome hsome]
    · simp [hname]

/-- A name that is new comes last. -/
theorem names_addDefinition (acc : List VariableDefinition) (d : VariableDefinition) :
    (addDefinition acc d).map (·.name) =
      if d.name ∈ acc.map (·.name) then acc.map (·.name) else acc.map (·.name) ++ [d.name] := by
  have hnew : acc.all (·.name ≠ d.name) = true ↔ d.name ∉ acc.map (·.name) := by simp
  unfold addDefinition
  by_cases hname : d.name ∈ acc.map (·.name)
  · rw [if_pos hname, if_neg fun hall => hnew.mp hall hname]
  · rw [if_neg hname, if_pos (hnew.mpr hname), List.map_append, List.map_singleton]

/-- The names stand in the order they first appear. -/
theorem names_foldl_addDefinition (definitions : List VariableDefinition) :
    (definitions.foldl addDefinition []).map (·.name) = (definitions.map (·.name)).eraseDups := by
  induction definitions using List.reverseRecOn with
  | nil => rfl
  | append_singleton rest d ih =>
    rw [List.foldl_concat, names_addDefinition, ih, List.map_append, List.map_singleton, eraseDups_concat]
    simp only [List.mem_eraseDups]

/-- What is found by a name is the first definition of it. -/
theorem find?_foldl_addDefinition (definitions acc : List VariableDefinition) (x : String) :
    (definitions.foldl addDefinition acc).find? (·.name = x) = (acc ++ definitions).find? (·.name = x) := by
  induction definitions generalizing acc with
  | nil => rw [List.append_nil]; rfl
  | cons d rest ih =>
    rw [List.foldl_cons, ih, List.find?_append, find?_addDefinition, ← List.find?_append, List.append_assoc,
      List.singleton_append]

theorem isSome_find?_iff : (definitions.find? (·.name = x)).isSome ↔ x ∈ definitions.map (·.name) := by
  simp [List.find?_isSome]

/-- Where names are distinct, a definition is what is found by its name. -/
theorem find?_of_mem (hnodup : (definitions.map (·.name)).Nodup) {d : VariableDefinition} (hd : d ∈ definitions) :
    definitions.find? (·.name = d.name) = some d := by
  have hsome : (definitions.find? (·.name = d.name)).isSome := isSome_find?_iff.mpr (List.mem_map_of_mem hd)
  obtain ⟨found, hfound⟩ := Option.isSome_iff_exists.mp hsome
  have hname : found.name = d.name := by simpa using List.find?_some hfound
  rw [hfound, List.inj_on_of_nodup_map hnodup (List.mem_of_find?_eq_some hfound) hd hname]

end

/-! ## The first operation that defines a variable -/

namespace Document

variable {document : Document} {op : Operation} {x : String}

/-- What is gone through in order is the operations that are held. -/
theorem mem_operationsInOrder :
    (∃ entry ∈ document.operationsInOrder, entry.2 = op) ↔ op ∈ document.operations.values := by
  rw [← document.operationsInOrder_perm.mem_iff, List.mem_map]

theorem pairwise_operationsInOrder (document : Document) :
    document.operationsInOrder.Pairwise fun a b => a.2.position ≤ b.2.position := pairwise_sortByPosition _ _

/-- For the fragments a variable is defined as it is first defined. -/
theorem find?_fragmentScope (document : Document) (x : String) :
    document.fragmentScopeDefinitions.find? (·.name = x) =
      (document.operationsInOrder.flatMap (·.2.variableDefinitions)).find? (·.name = x) := by
  rw [fragmentScopeDefinitions, find?_foldl_addDefinition, List.nil_append]

/-- The operation is the first one that defines the variable. -/
structure FirstDefines (document : Document) (x : String) (op : Operation) : Prop where
  mem : op ∈ document.operations.values
  defines : x ∈ op.variableDefinitions.map (·.name)
  first : ∀ op' ∈ document.operations.values, x ∈ op'.variableDefinitions.map (·.name) → op.position ≤ op'.position

/-- The only operation is the first one. -/
theorem firstDefines_of_single (h : document.operations.values = [op])
    (hdefines : x ∈ op.variableDefinitions.map (·.name)) : document.FirstDefines x op where
  mem := by simp [h]
  defines := hdefines
  first op' hop' _ := by
    rw [h, List.mem_singleton] at hop'
    rw [hop']
    exact (Position.le_total op.position op.position).elim id id

/-- A variable that some operation defines has a first one. -/
theorem exists_firstDefines (h : ∃ op ∈ document.operations.values, x ∈ op.variableDefinitions.map (·.name)) :
    ∃ op, document.FirstDefines x op := by
  obtain ⟨op, hop, hx⟩ := h
  obtain ⟨entry, hentry, rfl⟩ := mem_operationsInOrder.mpr hop
  have hsome : (document.operationsInOrder.find? fun e => x ∈ e.2.variableDefinitions.map (·.name)).isSome :=
    List.find?_isSome.mpr ⟨entry, hentry, decide_eq_true hx⟩
  obtain ⟨first, hfirst⟩ := Option.isSome_iff_exists.mp hsome
  obtain ⟨hdefines, before, after, hsplit, hbefore⟩ := List.find?_eq_some_iff_append.mp hfirst
  have hsorted := document.pairwise_operationsInOrder
  rw [hsplit, List.pairwise_append, List.pairwise_cons] at hsorted
  refine ⟨first.2, ?_, of_decide_eq_true hdefines, fun op' hop' hx' => ?_⟩
  · exact mem_operationsInOrder.mp ⟨first, List.mem_of_find?_eq_some hfirst, rfl⟩
  · obtain ⟨other, hother, rfl⟩ := mem_operationsInOrder.mpr hop'
    rw [hsplit] at hother
    rcases List.mem_append.mp hother with hother | hother
    · -- what comes before the first one does not define the variable
      simpa [hx'] using hbefore other hother
    · rcases List.mem_cons.mp hother with rfl | hother
      · exact (Position.le_total _ _).elim id id
      · exact hsorted.2.1.1 other hother

/-- Operations in distinct places can be listed in one order only. -/
theorem operationsInOrder_of_sorted (hpositions : (document.operations.values.map (·.position)).Nodup)
    {ops : List Operation} (hops : ops.Perm document.operations.values)
    (hsorted : ops.Pairwise fun a b => a.position ≤ b.position) : document.operationsInOrder.map (·.2) = ops := by
  refine List.Perm.eq_of_pairwise ?_ (List.pairwise_map.mpr document.pairwise_operationsInOrder) hsorted
    (document.operationsInOrder_perm.trans hops.symm)
  intro a b ha hb hab hba
  exact List.inj_on_of_nodup_map hpositions (document.operationsInOrder_perm.mem_iff.mp ha) (hops.mem_iff.mp hb)
    (Position.le_antisymm hab hba)

/-- The first definition of a variable is the first one in that operation. -/
theorem find?_operationsInOrder (hpositions : (document.operations.values.map (·.position)).Nodup)
    (h : document.FirstDefines x op) :
    (document.operationsInOrder.flatMap (·.2.variableDefinitions)).find? (·.name = x) =
      op.variableDefinitions.find? (·.name = x) := by
  obtain ⟨entry, hentry, rfl⟩ := mem_operationsInOrder.mpr h.mem
  obtain ⟨before, after, hsplit⟩ := List.append_of_mem hentry
  have hsorted := document.pairwise_operationsInOrder
  have hdistinct := nodup_operationsInOrder hpositions
  -- an operation before this one that defined the variable would be the first itself
  have hbefore : ∀ earlier ∈ before, x ∉ earlier.2.variableDefinitions.map (·.name) := by
    intro earlier hearlier hdefines
    have hmem : earlier.2 ∈ document.operations.values := by
      refine mem_operationsInOrder.mp ⟨earlier, ?_, rfl⟩
      rw [hsplit]
      exact List.mem_append_left _ hearlier
    have hle : earlier.2.position ≤ entry.2.position := by
      rw [hsplit] at hsorted
      exact (List.pairwise_append.mp hsorted).2.2 earlier hearlier entry (List.mem_cons_self ..)
    have hne : earlier.2.position ≠ entry.2.position := by
      rw [hsplit, List.map_append] at hdistinct
      exact (List.nodup_append.mp hdistinct).2.2 _ (List.mem_map_of_mem hearlier) _ (List.mem_cons_self ..)
    exact hne (Position.le_antisymm hle (h.first earlier.2 hmem hdefines))
  have hnone : (before.flatMap (·.2.variableDefinitions)).find? (·.name = x) = none := by
    rw [List.find?_eq_none]
    intro d hd hname
    obtain ⟨earlier, hearlier, hd⟩ := List.mem_flatMap.mp hd
    exact hbefore earlier hearlier (List.mem_map.mpr ⟨d, hd, by simpa using hname⟩)
  have hsome : (entry.2.variableDefinitions.find? (·.name = x)).isSome = true := by
    obtain ⟨d, hd, hname⟩ := List.mem_map.mp h.defines
    exact List.find?_isSome.mpr ⟨d, hd, by simpa using hname⟩
  rw [hsplit, List.flatMap_append, List.flatMap_cons, List.find?_append, List.find?_append, hnone, Option.none_or,
    Option.or_of_isSome hsome]

/-- A variable of the fragments is one that some operation defines. -/
theorem mem_fragmentScope_iff :
    x ∈ document.fragmentScopeDefinitions.map (·.name) ↔
      ∃ op ∈ document.operations.values, x ∈ op.variableDefinitions.map (·.name) := by
  rw [← isSome_find?_iff, find?_fragmentScope, isSome_find?_iff, List.map_flatMap, List.mem_flatMap]
  constructor
  · rintro ⟨entry, hentry, hx⟩
    exact ⟨entry.2, mem_operationsInOrder.mp ⟨entry, hentry, rfl⟩, hx⟩
  · rintro ⟨op, hop, hx⟩
    obtain ⟨entry, hentry, rfl⟩ := mem_operationsInOrder.mpr hop
    exact ⟨entry, hentry, hx⟩

/-- The default a variable has in the fragments is that of its first definition. -/
theorem lastDefault_fragmentScope (hpositions : (document.operations.values.map (·.position)).Nodup)
    (h : document.FirstDefines x op) :
    lastDefault document.fragmentScopeDefinitions x = firstDefault op.variableDefinitions x := by
  have hnodup : (document.fragmentScopeDefinitions.map (·.name)).Nodup := nodup_foldl_addDefinition List.nodup_nil
  rw [lastDefault_of_count_le_one (List.nodup_iff_count_le_one.mp hnodup x), firstDefault, find?_fragmentScope,
    find?_operationsInOrder hpositions h, firstDefault]

end Document

/-- Of the defaults of the variable no other than the first definition has a say, because the
    variable is supplied or because the last default is that of the first definition. -/
def Operation.Settles (op : Operation) (supplied : Variables) (x : String) : Prop :=
  (supplied.get? x).isSome ∨ firstDefault op.variableDefinitions x = lastDefault op.variableDefinitions x

/-- In a document whose operations have distinct positions let an operation and the fragments
    have values. For a variable that this operation is the first to define they have the same
    one exactly where the operation settles it, as it does what it defines once. And if there is
    no other operation, what it settles is the same as an argument here and there. -/
theorem fragment_value_agrees {document : Document} (hpositions : (document.operations.values.map (·.position)).Nodup)
    {supplied : Variables} {op : Operation} {values fragmentValues : Variables}
    (hvalues : coerceVariables op.variableDefinitions supplied = .ok values)
    (hfragments : coerceVariables document.fragmentScopeDefinitions supplied = .ok fragmentValues) :
    (∀ x, document.FirstDefines x op → (fragmentValues.get? x = values.get? x ↔ op.Settles supplied x)) ∧
    (∀ x, (op.variableDefinitions.map (·.name)).count x ≤ 1 → op.Settles supplied x) ∧
    (document.operations.values = [op] → ∀ x, op.Settles supplied x →
      ∀ entry, resolveArgument (.var x) entry fragmentValues = resolveArgument (.var x) entry values) := by
  have hown := coercedFrom_of_ok hvalues
  have hshared := coercedFrom_of_ok hfragments
  have hagrees : ∀ x, document.FirstDefines x op →
      (fragmentValues.get? x = values.get? x ↔ op.Settles supplied x) := by
    intro x hfirst
    have hmem : x ∈ document.fragmentScopeDefinitions.map (·.name) :=
      Document.mem_fragmentScope_iff.mpr ⟨op, hfirst.mem, hfirst.defines⟩
    rw [hown.get?_eq, if_pos hfirst.defines, hshared.get?_eq, if_pos hmem,
      Document.lastDefault_fragmentScope hpositions hfirst, Operation.Settles]
    cases supplied.get? x with
    | some v => simp
    | none => simp
  refine ⟨hagrees, fun x hcount => .inr (lastDefault_of_count_le_one hcount).symm, fun hsingle x hsettles entry => ?_⟩
  have hsame : fragmentValues.get? x = values.get? x := by
    by_cases hdefines : x ∈ op.variableDefinitions.map (·.name)
    · exact (hagrees x (Document.firstDefines_of_single hsingle hdefines)).mpr hsettles
    · have hmem : x ∉ document.fragmentScopeDefinitions.map (·.name) := by
        rw [Document.mem_fragmentScope_iff, hsingle]
        simpa using hdefines
      rw [hown.get?_eq, if_neg hdefines, hshared.get?_eq, if_neg hmem]
  simp only [resolveArgument, hsame]

def intVariable (column : Nat) (name : String) (default : Size) : VariableDefinition :=
  ⟨⟨1, column⟩, name, .named "Int" true, some (.number (.ofSize default)), []⟩

/-- The second of two operations that define `n`, and the only one that defines `m`. -/
def laterOperation : Operation := ⟨⟨2, 1⟩, .query, [intVariable 9 "n" 2, intVariable 18 "m" 3], [], [.spread "F" []]⟩

def earlierOperation : Operation := ⟨⟨1, 1⟩, .query, [intVariable 9 "n" 1], [], [.spread "F" []]⟩

def twoOperations : Document := ⟨.ofPairs [(some "B", laterOperation), (some "A", earlierOperation)], ∅⟩

/-- In the fragments `n` is what the operation at the earlier position says, and `m` what the
    other one says. -/
theorem fragment_value_agrees_two :
    ∃ earlier later shared, (twoOperations.operations.values.map (·.position)).Nodup ∧
      coerceVariables earlierOperation.variableDefinitions ∅ = .ok earlier ∧
      coerceVariables laterOperation.variableDefinitions ∅ = .ok later ∧
      coerceVariables twoOperations.fragmentScopeDefinitions ∅ = .ok shared ∧
      twoOperations.FirstDefines "n" earlierOperation ∧ twoOperations.FirstDefines "m" laterOperation ∧
      shared.get? "n" = earlier.get? "n" ∧ earlier.get? "n" ≠ later.get? "n" ∧
      shared.get? "m" = later.get? "m" := by
  have hpositions : (twoOperations.operations.values.map (·.position)).Nodup := by decide
  have hvalues : twoOperations.operations.values = [laterOperation, earlierOperation] := rfl
  have hn : twoOperations.FirstDefines "n" earlierOperation := ⟨by simp [hvalues], by decide, by simp [hvalues]; decide⟩
  have hm : twoOperations.FirstDefines "m" laterOperation := ⟨by simp [hvalues], by decide, by simp [hvalues]; decide⟩
  have hearlier : coerceVariables earlierOperation.variableDefinitions ∅ = .ok (.ofPairs [("n", .number (.ofSize 1))]) := rfl
  have hlater : coerceVariables laterOperation.variableDefinitions ∅ =
      .ok (.ofPairs [("n", .number (.ofSize 2)), ("m", .number (.ofSize 3))]) := rfl
  have hshared : coerceVariables twoOperations.fragmentScopeDefinitions ∅ =
      .ok (.ofPairs [("n", .number (.ofSize 1)), ("m", .number (.ofSize 3))]) := rfl
  obtain ⟨hagreesEarlier, honceEarlier, -⟩ := fragment_value_agrees hpositions hearlier hshared
  obtain ⟨hagreesLater, honceLater, -⟩ := fragment_value_agrees hpositions hlater hshared
  exact ⟨_, _, _, hpositions, hearlier, hlater, hshared, hn, hm,
    (hagreesEarlier "n" hn).mpr (honceEarlier "n" (by decide)), by decide +kernel,
    (hagreesLater "m" hm).mpr (honceLater "m" (by decide))⟩

/-- An operation that defines its variable twice, with two defaults. -/
def twiceDefined : Operation := ⟨⟨1, 1⟩, .query, [intVariable 7 "n" 1, intVariable 16 "n" 2], [], [.spread "F" []]⟩

def oneOperation : Document := ⟨.ofPairs [(none, twiceDefined)], ∅⟩

/-- In an operation that defines a variable twice the last default counts, and in the fragments
    the first. -/
theorem fragment_value_differs :
    ¬ ∀ (document : Document), (document.operations.values.map (·.position)).Nodup →
      ∀ (supplied : Variables) (x : String) (op : Operation), document.FirstDefines x op →
        ∀ {values fragmentValues : Variables}, coerceVariables op.variableDefinitions supplied = .ok values →
          coerceVariables document.fragmentScopeDefinitions supplied = .ok fragmentValues →
            fragmentValues.get? x = values.get? x := by
  intro h
  have hfirst : oneOperation.FirstDefines "n" twiceDefined := Document.firstDefines_of_single rfl (by decide)
  have hown : coerceVariables twiceDefined.variableDefinitions ∅ = .ok (.ofPairs [("n", .number (.ofSize 2))]) := rfl
  have hshared : coerceVariables oneOperation.fragmentScopeDefinitions ∅ =
      .ok (.ofPairs [("n", .number (.ofSize 1))]) := rfl
  have hsame := h oneOperation (by decide) ∅ "n" twiceDefined hfirst hown hshared
  exact absurd hsame (by decide +kernel)

/-! ## The definitions of the fragments -/

/-- In a document whose operations have distinct positions let the operations be gone through in
    the order of these. The definitions of the fragments have the names that operations define,
    each once and in the order they first appear, and each name is defined as it is first in the
    first operation that defines it. The order the document holds its operations in has no part
    in this. -/
theorem fragmentScope_listed {document : Document} (hpositions : (document.operations.values.map (·.position)).Nodup) :
    (document.fragmentScopeDefinitions.map (·.name)).Nodup ∧
    (∀ x, x ∈ document.fragmentScopeDefinitions.map (·.name) ↔
      ∃ op ∈ document.operations.values, x ∈ op.variableDefinitions.map (·.name)) ∧
    (∀ ops : List Operation, ops.Perm document.operations.values →
      ops.Pairwise (fun a b => a.position ≤ b.position) →
      document.fragmentScopeDefinitions.map (·.name) =
        ((ops.flatMap (·.variableDefinitions)).map (·.name)).eraseDups) ∧
    (∀ d ∈ document.fragmentScopeDefinitions, ∃ op, document.FirstDefines d.name op ∧
      op.variableDefinitions.find? (·.name = d.name) = some d) ∧
    ∀ document' : Document, document'.operations.entries.Perm document.operations.entries →
      document'.fragmentScopeDefinitions = document.fragmentScopeDefinitions := by
  have hnodup : (document.fragmentScopeDefinitions.map (·.name)).Nodup := nodup_foldl_addDefinition List.nodup_nil
  refine ⟨hnodup, fun x => Document.mem_fragmentScope_iff, fun ops hops hsorted => ?_, fun d hd => ?_,
    fun document' hsame => ?_⟩
  · rw [Document.fragmentScopeDefinitions, names_foldl_addDefinition,
      ← Document.operationsInOrder_of_sorted hpositions hops hsorted, List.flatMap_map]
  · obtain ⟨op, hop⟩ := Document.exists_firstDefines (Document.mem_fragmentScope_iff.mp (List.mem_map_of_mem hd))
    refine ⟨op, hop, ?_⟩
    rw [← Document.find?_operationsInOrder hpositions hop, ← Document.find?_fragmentScope]
    exact find?_of_mem hnodup hd
  · have hinOrder : document'.operationsInOrder = document.operationsInOrder := by
      rw [Table.values, List.map_map] at hpositions
      exact sortByPosition_of_perm hsame.symm hpositions
    rw [Document.fragmentScopeDefinitions, Document.fragmentScopeDefinitions, hinOrder]

/-- The last of three operations that share variables. -/
def lastOperation : Operation := ⟨⟨3, 1⟩, .query, [intVariable 9 "m" 4, intVariable 18 "k" 5], [], [.spread "F" []]⟩

/-- Held in another order than they are written in. -/
def threeOperations : Document :=
  ⟨.ofPairs [(some "C", lastOperation), (some "A", twiceDefined), (some "B", laterOperation)], ∅⟩

def threeReversed : Document := ⟨.ofPairs threeOperations.operations.entries.reverse, ∅⟩

/-- The first operation defines `n` twice, the second again and `m`, and the third that and
    `k`. -/
theorem fragmentScope_listed_three :
    (threeOperations.operations.values.map (·.position)).Nodup ∧
      threeOperations.fragmentScopeDefinitions = [intVariable 7 "n" 1, intVariable 18 "m" 3, intVariable 18 "k" 5] ∧
      threeOperations.fragmentScopeDefinitions.map (·.name) = ["n", "n", "n", "m", "m", "k"].eraseDups ∧
      (∃ op, threeOperations.FirstDefines "m" op ∧
        op.variableDefinitions.find? (·.name = "m") = some (intVariable 18 "m" 3)) ∧
      threeReversed.fragmentScopeDefinitions = threeOperations.fragmentScopeDefinitions := by
  have hpositions : (threeOperations.operations.values.map (·.position)).Nodup := by decide
  have hlist : threeOperations.fragmentScopeDefinitions =
      [intVariable 7 "n" 1, intVariable 18 "m" 3, intVariable 18 "k" 5] := rfl
  obtain ⟨-, -, hnames, hfirst, hheld⟩ := fragmentScope_listed hpositions
  have hops : [twiceDefined, laterOperation, lastOperation].Perm threeOperations.operations.values := by
    show ([twiceDefined, laterOperation] ++ [lastOperation]).Perm ([lastOperation] ++ [twiceDefined, laterOperation])
    exact List.perm_append_comm
  have hreversed : threeReversed.operations.entries.Perm threeOperations.operations.entries :=
    List.reverse_perm threeOperations.operations.entries
  refine ⟨hpositions, hlist, hnames _ hops (by decide), ?_, hheld threeReversed hreversed⟩
  exact hfirst (intVariable 18 "m" 3) (by rw [hlist]; simp)

end QueryCost
