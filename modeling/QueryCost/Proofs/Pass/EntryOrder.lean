/-
  QueryCost.Proofs.Pass.EntryOrder — the order in which a document holds its definitions.

  The tables of a document have no order that means anything. A pass reads from them by name,
  or goes through them in the order of positions, and positions that are distinct leave one
  such order (`sortByPosition_of_perm`). So a pass walks two documents that hold the same
  definitions abreast, and its states are the same all the way (`visitor_simulates`).

  - `entries_reordered`: validations of such documents have the same outcome to the last
    error and the last event.
-/

import QueryCost.Proofs.Pass.Simulation
import QueryCost.Proofs.Pass.Report

namespace QueryCost

/-! ## Sorting -/

section

variable {α : Type} {pos : α → Position} {l l' : List α}

theorem pairwise_insertAt (a : α) (h : l.Pairwise fun b c => pos b ≤ pos c) :
    (insertAt pos a l).Pairwise fun b c => pos b ≤ pos c := by
  induction l with
  | nil => exact List.pairwise_singleton _ _
  | cons b rest ih =>
    obtain ⟨hb, hrest⟩ := List.pairwise_cons.mp h
    unfold insertAt
    split
    · rename_i hle
      refine List.pairwise_cons.mpr ⟨fun c hc => ?_, h⟩
      rcases List.mem_cons.mp hc with rfl | hc
      · exact hle
      · exact Position.le_trans hle (hb c hc)
    · rename_i hnot
      refine List.pairwise_cons.mpr ⟨fun c hc => ?_, ih hrest⟩
      rcases List.mem_cons.mp ((insertAt_perm pos a rest).mem_iff.mp hc) with rfl | hc
      · exact (Position.le_total _ _).resolve_left hnot
      · exact hb c hc

theorem pairwise_sortByPosition (pos : α → Position) (l : List α) :
    (sortByPosition pos l).Pairwise fun a b => pos a ≤ pos b := by
  induction l with
  | nil => exact List.Pairwise.nil
  | cons a rest ih => exact pairwise_insertAt a ih

/-- Distinct positions can be put in order in one way only. -/
theorem sortByPosition_of_perm (h : l.Perm l') (hpositions : (l.map pos).Nodup) :
    sortByPosition pos l' = sortByPosition pos l := by
  have hperm : (sortByPosition pos l').Perm (sortByPosition pos l) :=
    (sortByPosition_perm pos l').trans (h.symm.trans (sortByPosition_perm pos l).symm)
  refine List.Perm.eq_of_pairwise ?_ (pairwise_sortByPosition pos l') (pairwise_sortByPosition pos l) hperm
  intro a b ha hb hab hba
  have ha' : a ∈ l := h.mem_iff.mpr ((sortByPosition_perm pos l').mem_iff.mp ha)
  have hb' : b ∈ l := (sortByPosition_perm pos l).mem_iff.mp hb
  exact List.inj_on_of_nodup_map hpositions ha' hb' (Position.le_antisymm hab hba)

end

/-! ## Documents that hold the same definitions -/

/-- The documents hold the same definitions, in any order. -/
structure Document.Reordered (document document' : Document) : Prop where
  operations : document.operations.entries.Perm document'.operations.entries
  fragments : document.fragments.entries.Perm document'.fragments.entries

/-- No two operations of the document are in one place, and no two fragments. -/
structure Document.Placed (document : Document) : Prop where
  operations : (document.operations.values.map (·.position)).Nodup
  fragments : (document.fragments.values.map (·.position)).Nodup

namespace Document.Reordered

variable {document document' : Document}

theorem fragment? (h : document.Reordered document') (f : String) : document'.fragment? f = document.fragment? f :=
  Table.get?_of_perm h.fragments f

theorem operationsInOrder (h : document.Reordered document') (hplaced : document.Placed) :
    document'.operationsInOrder = document.operationsInOrder := by
  have hpositions := hplaced.operations
  rw [Table.values, List.map_map] at hpositions
  exact sortByPosition_of_perm h.operations hpositions

theorem fragmentsInOrder (h : document.Reordered document') (hplaced : document.Placed) :
    document'.fragmentsInOrder = document.fragmentsInOrder := by
  have hpositions := hplaced.fragments
  rw [Table.values, List.map_map] at hpositions
  exact sortByPosition_of_perm h.fragments hpositions

theorem fragmentScopeDefinitions (h : document.Reordered document') (hplaced : document.Placed) :
    document'.fragmentScopeDefinitions = document.fragmentScopeDefinitions := by
  rw [Document.fragmentScopeDefinitions, Document.fragmentScopeDefinitions, h.operationsInOrder hplaced]

end Document.Reordered

/-! ## Passes -/

namespace Pass

variable {document document' : Document} {p : Place}

/-- What a pass asks of a document, but for the order of its definitions. -/
structure ReadsAlike (document document' : Document) : Prop where
  fragment? (f : String) : document'.fragment? f = document.fragment? f
  fragmentScopeDefinitions : document'.fragmentScopeDefinitions = document.fragmentScopeDefinitions

namespace ReadsAlike

theorem scopeValues (h : ReadsAlike document document') (hp : p.document = document) (s : Pass) :
    s.scopeValues (p.inDocument document') = s.scopeValues p := by
  have hdefinitions : s.scopeDefinitions (p.inDocument document').document = s.scopeDefinitions p.document := by
    show s.scopeDefinitions document' = s.scopeDefinitions p.document
    unfold scopeDefinitions
    rw [h.fragmentScopeDefinitions, hp]
  have hsupplied : (p.inDocument document').supplied = p.supplied := rfl
  unfold Pass.scopeValues
  rw [hdefinitions, hsupplied]

theorem enterField (h : ReadsAlike document document') (hp : p.document = document) (field : Field)
    (below : List Selection) (s : Pass) :
    Pass.enterField (p.inDocument document') field below s = Pass.enterField p field below s := by
  have hmultipliers : ∀ entry cost,
      s.multipliers (p.inDocument document') field entry cost = s.multipliers p field entry cost := by
    intro entry cost
    unfold multipliers
    rw [h.scopeValues hp]
  unfold Pass.enterField
  simp only [hmultipliers]
  rfl

theorem spread (h : ReadsAlike document document') (hp : p.document = document) (fragment : String) (s : Pass) :
    s.spread (p.inDocument document') fragment = s.spread p fragment := by
  have hfragment : (p.inDocument document').document.fragment? fragment = p.document.fragment? fragment := by
    rw [hp]
    exact h.fragment? fragment
  unfold Pass.spread
  rw [hfragment]

theorem finish (h : ReadsAlike document document') (hp : p.document = document) (a : Analyzer) (s : Pass) :
    s.finish a (p.inDocument document') = s.finish a p := by
  have hcycle : ∀ (fragments : List String) (s : Pass),
      s.reportCycle document' fragments = s.reportCycle p.document fragments := by
    intro fragments s
    unfold reportCycle
    rw [h.fragment?, hp]
  unfold Pass.finish
  simp only [← hcycle]
  rfl

/-- A pass has the same states in both documents. -/
theorem visitor_simulates (h : ReadsAlike document document') (a : Analyzer) :
    (visitor a).Simulates (visitor a) document document' (· = ·) where
  enterDocument _ s _ _ hst := congrArg (openDetached · .container) hst
  exitDocument p s t hp hst := by
    rw [← hst]
    exact (h.finish hp a s).symm
  enterOperation _ op _ _ _ _ hst := congrArg (fun s : Pass => { s with operations := op :: s.operations }) hst
  exitOperation _ _ _ _ _ _ hst := congrArg (fun s : Pass => { s with operations := s.operations.tail }) hst
  enterFragment name _ _ _ _ _ hst := congrArg (Pass.enterFragment name) hst
  exitFragment _ _ _ _ _ _ hst := congrArg close hst
  enterField f below p s t hp hst := by
    rw [← hst]
    have hsame := h.enterField hp f below s
    exact ⟨congrArg Prod.fst hsame, (congrArg Prod.snd hsame).symm⟩
  exitField _ _ _ _ _ _ hst := congrArg close hst
  spread fragment p s t hp hst := by
    rw [← hst]
    exact (h.spread hp fragment s).symm

end ReadsAlike

end Pass

/-- Where definitions of one kind are in distinct places, the order in which a document holds
    them is of no consequence to what is published, reported and logged. -/
theorem entries_reordered (schema : Schema) {document document' : Document} (hplaced : document.Placed)
    (h : document.Reordered document') (e : Execution) : validate schema document' e = validate schema document e := by
  have hreads : Pass.ReadsAlike document document' := ⟨h.fragment?, h.fragmentScopeDefinitions hplaced⟩
  have hpass : ∀ a, runPass a schema document e.supplied = runPass a schema document' e.supplied := by
    intro a
    exact (hreads.visitor_simulates a).walk_simulated (h.operationsInOrder hplaced) (h.fragmentsInOrder hplaced) schema
      e.supplied rfl
  unfold validate
  simp only [hpass]

/-- Two operations that define a variable differently, and two fragments that need it and
    spread each other. -/
def relay : Document where
  operations := .ofPairs [
    (some "A", ⟨⟨1, 1⟩, .query, [⟨⟨1, 9⟩, "n", .named "Int" false, none, []⟩], [],
      [.field ⟨none, "items", [("first", .var "n")], []⟩ [], .spread "F" []]⟩),
    (some "B", ⟨⟨2, 1⟩, .query, [⟨⟨2, 9⟩, "n", .named "Int" true, some (.number (.ofSize 2)), []⟩], [],
      [.spread "G" [], .field ⟨none, "items", [("first", .var "n")], []⟩ []]⟩)]
  fragments := .ofPairs [
    ("F", ⟨⟨3, 1⟩, "Query", [], [.spread "G" []]⟩),
    ("G", ⟨⟨4, 1⟩, "Query", [], [.spread "F" [], .field ⟨none, "items", [("first", .var "n")], []⟩ []]⟩)]

/-- The same, held the other way around. -/
def relayReversed : Document where
  operations := .ofPairs relay.operations.entries.reverse
  fragments := .ofPairs relay.fragments.entries.reverse

/-- Either way the variable of `A`, which comes first, is reported missing, and the cycle is
    found from `F`, which `A` spreads. -/
theorem entries_reordered_relay :
    relay.Placed ∧ relay.Reordered relayReversed ∧ relayReversed.fragments.keys = ["G", "F"] ∧
      validate shop relayReversed (.ofVariables ∅) =
        ⟨⟨∅, [⟨.missingVariable "n" (.named "Int" false), [⟨1, 9⟩]⟩, ⟨.cycle ["F", "G", "F"], [⟨3, 1⟩]⟩], none⟩, none,
          [.uncoercedVariables 1, .prunedField "items", .uncoercedVariables 1, .prunedField "items"]⟩ := by
  have hplaced : relay.Placed := ⟨by decide +kernel, by decide +kernel⟩
  have hreordered : relay.Reordered relayReversed := ⟨(List.reverse_perm _).symm, (List.reverse_perm _).symm⟩
  have hvalidated : validate shop relay (.ofVariables ∅) =
      ⟨⟨∅, [⟨.missingVariable "n" (.named "Int" false), [⟨1, 9⟩]⟩, ⟨.cycle ["F", "G", "F"], [⟨3, 1⟩]⟩], none⟩, none,
        [.uncoercedVariables 1, .prunedField "items", .uncoercedVariables 1, .prunedField "items"]⟩ := by
    decide +kernel
  refine ⟨hplaced, hreordered, by decide +kernel, ?_⟩
  exact (entries_reordered shop hplaced hreordered (.ofVariables ∅)).trans hvalidated

end QueryCost
