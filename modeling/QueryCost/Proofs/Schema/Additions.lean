/-
  QueryCost.Proofs.Schema.Additions — what one definition or extension adds to a registry.

  Only the costs can keep a definition out, and of the directives on an element only the first
  that declares a cost is read. Where those can be read (`Sdl.TypeDefinition.Readable`) what a
  definition adds is a function of it (`Sdl.TypeDefinition.addition`), and all that is left to
  decide is whether its name is there already.

  - `DeclaredCost.ofDirectives_eq`: the first cost directive decides.
  - `TypeAddition.ofDefinition_eq_ok_iff`: when a definition can be read, and what it adds.
  - `Draft.addType_cases`: the two ways a definition is taken in.
-/

import Mathlib.Data.List.Basic
import QueryCost.Schema.Build

namespace QueryCost

/-- What comes after a step that may fail has come out, so the step has. -/
theorem exists_of_bind_ok {ε α β : Type} {x : Except ε α} {f : α → Except ε β} {b : β} (h : x >>= f = .ok b) :
    ∃ a, x = .ok a ∧ f a = .ok b := by
  cases x with
  | error e => cases h
  | ok a => exact ⟨a, rfl, h⟩

/-- A failure is that of the first step or comes after it. -/
theorem error_of_bind {ε α β : Type} {x : Except ε α} {f : α → Except ε β} {e : ε} (h : x >>= f = .error e) :
    x = .error e ∨ ∃ a, x = .ok a ∧ f a = .error e := by
  cases x with
  | error e' =>
    cases h
    exact .inl rfl
  | ok a => exact .inr ⟨a, rfl, h⟩

theorem bind_eq_ok_iff {ε α β : Type} {x : Except ε α} {f : α → Except ε β} {b : β} :
    x >>= f = .ok b ↔ ∃ a, x = .ok a ∧ f a = .ok b := by
  constructor
  · exact exists_of_bind_ok
  · rintro ⟨a, rfl, h⟩
    exact h

theorem bind_eq_error_iff {ε α β : Type} {x : Except ε α} {f : α → Except ε β} {e : ε} :
    x >>= f = .error e ↔ x = .error e ∨ ∃ a, x = .ok a ∧ f a = .error e := by
  constructor
  · exact error_of_bind
  · rintro (rfl | ⟨a, rfl, h⟩)
    · rfl
    · exact h

theorem eq_ok_of_toOption {ε α : Type} {x : Except ε α} {a : α} (h : x.toOption = some a) : x = .ok a := by
  cases x with
  | error e => cases h
  | ok b => rw [Option.some.inj h]

theorem mapM_ok_of_forall {ε α β : Type} {f : α → Except ε β} {g : α → β} {l : List α}
    (h : ∀ x ∈ l, f x = .ok (g x)) : l.mapM f = .ok (l.map g) := by
  induction l with
  | nil => rfl
  | cons x rest ih =>
    rw [List.mapM_cons, h x (List.mem_cons_self ..), ih fun y hy => h y (List.mem_cons_of_mem _ hy)]
    rfl

theorem exists_of_mapM_ok {ε α β : Type} {f : α → Except ε β} {l : List α} {l' : List β} (h : l.mapM f = .ok l') :
    ∀ x ∈ l, ∃ y, f x = .ok y := by
  induction l generalizing l' with
  | nil => exact nofun
  | cons x rest ih =>
    rw [List.mapM_cons] at h
    obtain ⟨y, hy, h⟩ := exists_of_bind_ok h
    obtain ⟨ys, hys, -⟩ := exists_of_bind_ok h
    intro z hz
    rcases List.mem_cons.mp hz with rfl | hz
    · exact ⟨y, hy⟩
    · exact ih hys z hz

/-! ## Costs -/

/-- The directive declares a cost. -/
def Directive.isCost (d : Directive Empty) : Bool := d.name = costDirective || d.name = listCostDirective

namespace DeclaredCost

variable {directives : List (Directive Empty)}

theorem ofDirective_of_other {d : Directive Empty} (h : d.isCost = false) : ofDirective d = .ok none := by
  simp only [Directive.isCost, Bool.or_eq_false_iff, decide_eq_false_iff_not] at h
  rw [ofDirective, if_neg h.1, if_neg h.2]

/-- A cost directive declares a cost, unless it cannot be read. -/
theorem isSome_of_ofDirective {d : Directive Empty} (h : d.isCost = true) {cost : Option DeclaredCost}
    (hcost : ofDirective d = .ok cost) : cost.isSome = true := by
  unfold ofDirective at hcost
  split at hcost
  · obtain ⟨complexity, -, hcost⟩ := exists_of_bind_ok hcost
    cases hcost
    rfl
  · rename_i hflat
    split at hcost
    · obtain ⟨complexity, -, hcost⟩ := exists_of_bind_ok hcost
      obtain ⟨assumedSize, -, hcost⟩ := exists_of_bind_ok hcost
      obtain ⟨arguments, -, hcost⟩ := exists_of_bind_ok hcost
      cases hcost
      rfl
    · rename_i hlist
      simp [Directive.isCost, hflat, hlist] at h

/-- The first cost directive decides. -/
theorem ofDirectives_eq (element : Element) (directives : List (Directive Empty)) :
    ofDirectives element directives =
      match directives.find? (·.isCost) with
      | none => .ok none
      | some d => (ofDirective d).mapError fun problem => ⟨d.name, element, problem⟩ := by
  induction directives with
  | nil => rfl
  | cons d rest ih =>
    cases hd : d.isCost with
    | false => rw [ofDirectives, ofDirective_of_other hd, ih, List.find?_cons_of_neg (by simp [hd])]
    | true =>
      rw [List.find?_cons_of_pos hd, ofDirectives]
      cases hcost : ofDirective d with
      | error problem => simp only [hcost, Except.mapError]
      | ok cost =>
        cases cost with
        | none => cases isSome_of_ofDirective hd hcost
        | some cost => simp only [hcost, Except.mapError]

/-- The first cost directive, if there is one, can be read. -/
def Readable (directives : List (Directive Empty)) : Prop :=
  ∀ d ∈ directives.find? (·.isCost), (ofDirective d).isOk = true

instance (directives : List (Directive Empty)) : Decidable (Readable directives) :=
  inferInstanceAs (Decidable (∀ d ∈ directives.find? (·.isCost), (ofDirective d).isOk = true))

/-- The cost the first cost directive declares, if there is one and it can be read. -/
def ofDirectives? (directives : List (Directive Empty)) : Option DeclaredCost :=
  (directives.find? (·.isCost)).bind fun d => (ofDirective d).toOption.join

theorem ofDirectives_eq_ok_iff {element : Element} {cost : Option DeclaredCost} :
    ofDirectives element directives = .ok cost ↔ Readable directives ∧ cost = ofDirectives? directives := by
  rw [ofDirectives_eq, Readable, ofDirectives?]
  cases directives.find? (·.isCost) with
  | none => simp [@eq_comm _ none]
  | some d =>
    cases hcost : ofDirective d with
    | error problem => simp [hcost, Except.mapError, Except.isOk, Except.toBool]
    | ok found => simp [hcost, Except.mapError, Except.isOk, Except.toBool, Except.toOption, @eq_comm _ found]

theorem isSome_ofDirectives? (h : Readable directives) :
    (ofDirectives? directives).isSome = directives.any (·.isCost) := by
  rw [← List.isSome_find?, ofDirectives?]
  unfold Readable at h
  cases hd : directives.find? (·.isCost) with
  | none => rfl
  | some d =>
    have hok := h d hd
    have hcost : d.isCost = true := List.find?_some hd
    cases hread : ofDirective d with
    | error problem =>
      rw [hread] at hok
      cases hok
    | ok cost => simpa [hread, Except.toOption] using isSome_of_ofDirective hcost hread

end DeclaredCost

/-! ## Definitions -/

namespace Sdl

/-- The field as a registry holds it. -/
def FieldDefinition.entry (f : FieldDefinition) : FieldEntry :=
  ⟨f.name, f.type, .ofPairs (f.arguments.map fun a => (a.name, .ofDefinition a)), DeclaredCost.ofDirectives? f.directives⟩

namespace TypeDefinition

/-- The costs of the type and of its fields can be read. -/
def Readable (t : TypeDefinition) : Prop :=
  DeclaredCost.Readable t.directives ∧ ∀ f ∈ t.body.fields, DeclaredCost.Readable f.directives

instance (t : TypeDefinition) : Decidable t.Readable :=
  inferInstanceAs (Decidable (DeclaredCost.Readable t.directives ∧ ∀ f ∈ t.body.fields, DeclaredCost.Readable f.directives))

/-- A cost directive stands on the type. -/
def carriesCost (t : TypeDefinition) : Bool := t.directives.any (·.isCost)

/-- The cost declared for the type. -/
def cost? (t : TypeDefinition) : Option DeclaredCost := DeclaredCost.ofDirectives? t.directives

def addition (t : TypeDefinition) : TypeAddition :=
  ⟨t.cost?, t.body.fields.map (·.entry), t.body.interfaces, t.body.members⟩

end TypeDefinition

end Sdl

theorem FieldEntry.ofDefinition_eq_ok_iff {parent : String} {f : Sdl.FieldDefinition} {entry : FieldEntry} :
    FieldEntry.ofDefinition parent f = .ok entry ↔ DeclaredCost.Readable f.directives ∧ entry = f.entry := by
  constructor
  · intro h
    obtain ⟨cost, hcost, hentry⟩ := exists_of_bind_ok h
    obtain ⟨hreadable, rfl⟩ := DeclaredCost.ofDirectives_eq_ok_iff.mp hcost
    cases hentry
    exact ⟨hreadable, rfl⟩
  · rintro ⟨hreadable, rfl⟩
    rw [ofDefinition, DeclaredCost.ofDirectives_eq_ok_iff.mpr ⟨hreadable, rfl⟩]
    rfl

/-- A definition whose costs can be read adds what it declares. -/
theorem TypeAddition.ofDefinition_of_readable {t : Sdl.TypeDefinition} (h : t.Readable) :
    TypeAddition.ofDefinition t = .ok t.addition := by
  have hfields : t.body.fields.mapM (FieldEntry.ofDefinition t.name) = .ok (t.body.fields.map (·.entry)) :=
    mapM_ok_of_forall fun f hf => FieldEntry.ofDefinition_eq_ok_iff.mpr ⟨h.2 f hf, rfl⟩
  rw [ofDefinition, DeclaredCost.ofDirectives_eq_ok_iff.mpr ⟨h.1, rfl⟩, hfields]
  rfl

theorem TypeAddition.ofDefinition_eq_ok_iff {t : Sdl.TypeDefinition} {addition : TypeAddition} :
    TypeAddition.ofDefinition t = .ok addition ↔ t.Readable ∧ addition = t.addition := by
  constructor
  · intro h
    have hreadable : t.Readable := by
      obtain ⟨cost, hcost, h⟩ := exists_of_bind_ok h
      obtain ⟨fields, hfields, -⟩ := exists_of_bind_ok h
      refine ⟨(DeclaredCost.ofDirectives_eq_ok_iff.mp hcost).1, fun f hf => ?_⟩
      obtain ⟨entry, hentry⟩ := exists_of_mapM_ok hfields f hf
      exact (FieldEntry.ofDefinition_eq_ok_iff.mp hentry).1
    rw [ofDefinition_of_readable hreadable] at h
    exact ⟨hreadable, (Except.ok.inj h).symm⟩
  · rintro ⟨hreadable, rfl⟩
    exact ofDefinition_of_readable hreadable

namespace Draft

variable {d d' : Draft} {t : Sdl.TypeDefinition}

theorem addType_of_readable (h : t.Readable) (d : Draft) :
    d.addType t =
      match d.types.get? t.name with
      | some entry =>
        if t.extend then .ok { d with types := d.types.insert t.name (entry.merge t.addition) }
        else .error (.duplicateType t.name)
      | none =>
        .ok { d with types := d.types.insert t.name ((TypeEntry.bare t.name t.body.kind).merge t.addition) } := by
  rw [addType, TypeAddition.ofDefinition_of_readable h]
  rfl

/-- A definition is merged into the entry of its name or makes it. -/
theorem addType_cases (h : d.addType t = .ok d') :
    t.Readable ∧
      ((∃ entry, d.types.get? t.name = some entry ∧ t.extend = true ∧
          d' = { d with types := d.types.insert t.name (entry.merge t.addition) }) ∨
        (d.types.get? t.name = none ∧
          d' = { d with types := d.types.insert t.name ((TypeEntry.bare t.name t.body.kind).merge t.addition) })) := by
  have hreadable : t.Readable := by
    obtain ⟨addition, haddition, -⟩ := exists_of_bind_ok h
    cases hread : TypeAddition.ofDefinition t with
    | error e =>
      rw [hread] at haddition
      cases haddition
    | ok addition => exact (TypeAddition.ofDefinition_eq_ok_iff.mp hread).1
  rw [addType_of_readable hreadable] at h
  refine ⟨hreadable, ?_⟩
  cases hentry : d.types.get? t.name with
  | some entry =>
    simp only [hentry] at h
    split at h
    · rename_i hextend
      exact .inl ⟨entry, rfl, hextend, (Except.ok.inj h).symm⟩
    · cases h
  | none =>
    simp only [hentry] at h
    exact .inr ⟨rfl, (Except.ok.inj h).symm⟩

end Draft

end QueryCost
