/-
  QueryCost.Text.Position — places in a text.

  Lines and columns count from 1 and columns count characters. A line feed starts a
  new line; a carriage return goes back to the first column of the same line.
-/

namespace QueryCost

structure Position where
  line : Nat
  column : Nat
  deriving DecidableEq, Repr

namespace Position

def start : Position := ⟨1, 1⟩

/-- The place after a character. -/
def after (p : Position) (c : Char) : Position :=
  if c = '\n' then ⟨p.line + 1, 1⟩
  else if c = '\r' then ⟨p.line, 1⟩
  else ⟨p.line, p.column + 1⟩

/-- Earlier in the text, or the same place. -/
def le (p q : Position) : Bool := p.line < q.line || (p.line = q.line && p.column ≤ q.column)

instance : LE Position := ⟨fun p q => p.le q = true⟩
instance (p q : Position) : Decidable (p ≤ q) := inferInstanceAs (Decidable (_ = true))

theorem le_iff {p q : Position} :
    p ≤ q ↔ p.line < q.line ∨ (p.line = q.line ∧ p.column ≤ q.column) := by
  show p.le q = true ↔ _
  simp [le]

theorem le_trans {p q r : Position} (h₁ : p ≤ q) (h₂ : q ≤ r) : p ≤ r := by
  rw [le_iff] at *; omega

theorem le_total (p q : Position) : p ≤ q ∨ q ≤ p := by
  rw [le_iff, le_iff]; omega

theorem le_antisymm {p q : Position} (h₁ : p ≤ q) (h₂ : q ≤ p) : p = q := by
  rw [le_iff] at *
  cases p; cases q
  simp only [mk.injEq] at *
  omega

end Position

/-! ## Sorting by position -/

variable {α : Type}

/-- Puts `a` before the first element that does not come earlier. -/
def insertAt (pos : α → Position) (a : α) : List α → List α
  | [] => [a]
  | b :: rest => if pos a ≤ pos b then a :: b :: rest else b :: insertAt pos a rest

/-- The elements in the order of their positions; those at one place keep their order. -/
def sortByPosition (pos : α → Position) : List α → List α
  | [] => []
  | a :: rest => insertAt pos a (sortByPosition pos rest)

theorem insertAt_perm (pos : α → Position) (a : α) (l : List α) : (insertAt pos a l).Perm (a :: l) := by
  induction l with
  | nil => exact List.Perm.refl _
  | cons b rest ih =>
    unfold insertAt
    split
    · exact List.Perm.refl _
    · exact ((List.Perm.cons b ih).trans (List.Perm.swap a b rest))

theorem insertAt_map {β : Type} (pos : β → Position) (g : α → β) (a : α) (l : List α) :
    insertAt pos (g a) (l.map g) = (insertAt (fun a => pos (g a)) a l).map g := by
  induction l with
  | nil => rfl
  | cons b rest ih =>
    simp only [List.map_cons, insertAt, ih]
    split <;> rfl

/-- What the elements become can be decided after they are sorted. -/
theorem sortByPosition_map {β : Type} (pos : β → Position) (g : α → β) (l : List α) :
    sortByPosition pos (l.map g) = (sortByPosition (fun a => pos (g a)) l).map g := by
  induction l with
  | nil => rfl
  | cons a rest ih => rw [List.map_cons, sortByPosition, ih, insertAt_map, sortByPosition]

theorem sortByPosition_perm (pos : α → Position) (l : List α) : (sortByPosition pos l).Perm l := by
  induction l with
  | nil => exact List.Perm.refl _
  | cons a rest ih => exact (insertAt_perm pos a _).trans (List.Perm.cons a ih)

end QueryCost
