/-
  QueryCost.NameSet — sets of names, in the order they were first given.
-/

namespace QueryCost

structure NameSet where
  names : List String
  nodup : names.Nodup
  deriving DecidableEq, Repr

namespace NameSet

def empty : NameSet := ⟨[], List.nodup_nil⟩

instance : EmptyCollection NameSet := ⟨empty⟩
instance : Inhabited NameSet := ⟨empty⟩
instance : Membership String NameSet := ⟨fun s name => name ∈ s.names⟩
instance (name : String) (s : NameSet) : Decidable (name ∈ s) := inferInstanceAs (Decidable (name ∈ s.names))

theorem nodup_concat {name : String} {names : List String} (h : names.Nodup) (hn : name ∉ names) :
    (names ++ [name]).Nodup := by
  refine List.nodup_append.mpr ⟨h, by simp, ?_⟩
  intro a ha b hb e
  rw [List.mem_singleton.mp hb] at e
  exact hn (e ▸ ha)

/-- Adds a name at the end, where it is new. -/
def add (s : NameSet) (name : String) : NameSet :=
  if h : name ∈ s.names then s else ⟨s.names ++ [name], nodup_concat s.nodup h⟩

def ofList (names : List String) : NameSet := names.foldl add empty

def isEmpty (s : NameSet) : Bool := s.names.isEmpty

/-- Takes a name out. -/
def remove (s : NameSet) (name : String) : NameSet :=
  ⟨s.names.filter (· ≠ name), s.nodup.sublist List.filter_sublist⟩

theorem mem_add {s : NameSet} {name n : String} : n ∈ s.add name ↔ n ∈ s ∨ n = name := by
  show n ∈ (s.add name).names ↔ n ∈ s.names ∨ n = name
  unfold add
  split
  · rename_i h
    constructor
    · exact Or.inl
    · rintro (h' | rfl)
      · exact h'
      · exact h
  · simp

theorem mem_remove {s : NameSet} {name n : String} : n ∈ s.remove name ↔ n ∈ s ∧ n ≠ name := by
  show n ∈ (s.remove name).names ↔ n ∈ s.names ∧ n ≠ name
  simp [remove]

end NameSet

end QueryCost
