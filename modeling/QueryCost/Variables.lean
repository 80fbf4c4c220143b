/-
  QueryCost.Variables — the variables supplied with a request.

  Names map to constants, in the order of the names by code point. The order is part of
  the type, so two sets of variables that answer every look-up alike are equal, however
  they were put together.

  Three routes lead here: a JSON value (`ofJson`, which takes anything that is not an
  object for no variables), data that must be an object or nothing (`decode`), and
  pairs (`ofPairs`, where the last value of a name counts).
-/

import QueryCost.Decode
import QueryCost.Table
import QueryCost.Value

namespace QueryCost

structure Variables where
  entries : List (String × Constant)
  sorted : (entries.map Prod.fst).Pairwise (· < ·)
  deriving DecidableEq, Repr

namespace Variables

def empty : Variables := ⟨[], List.Pairwise.nil⟩

instance : EmptyCollection Variables := ⟨empty⟩
instance : Inhabited Variables := ⟨empty⟩

/-- Writes a name at its place in the order. -/
def place (name : String) (value : Constant) : List (String × Constant) → List (String × Constant)
  | [] => [(name, value)]
  | (n, v) :: rest =>
    if name < n then (name, value) :: (n, v) :: rest
    else if name = n then (name, value) :: rest
    else (n, v) :: place name value rest

theorem mem_keys_place {name : String} {value : Constant} {entries : List (String × Constant)} {m : String}
    (h : m ∈ (place name value entries).map Prod.fst) : m = name ∨ m ∈ entries.map Prod.fst := by
  induction entries with
  | nil => simpa [place] using h
  | cons head rest ih =>
    obtain ⟨n, v⟩ := head
    unfold place at h
    split at h
    · simpa using h
    · split at h
      · simp only [List.map_cons, List.mem_cons] at h ⊢
        rcases h with h | h
        · exact Or.inl h
        · exact Or.inr (Or.inr h)
      · simp only [List.map_cons, List.mem_cons] at h ⊢
        rcases h with h | h
        · exact Or.inr (Or.inl h)
        · rcases ih h with h | h
          · exact Or.inl h
          · exact Or.inr (Or.inr h)

theorem sorted_place (name : String) (value : Constant) {entries : List (String × Constant)}
    (h : (entries.map Prod.fst).Pairwise (· < ·)) :
    ((place name value entries).map Prod.fst).Pairwise (· < ·) := by
  induction entries with
  | nil => simp [place]
  | cons head rest ih =>
    obtain ⟨n, v⟩ := head
    simp only [List.map_cons, List.pairwise_cons] at h
    unfold place
    split
    · rename_i hlt
      simp only [List.map_cons, List.pairwise_cons, List.mem_cons]
      refine ⟨?_, h⟩
      rintro m (rfl | hm)
      · exact hlt
      · exact String.lt_trans hlt (h.1 m hm)
    · split
      · rename_i heq
        subst heq
        simpa using h
      · rename_i hge hne
        simp only [List.map_cons, List.pairwise_cons]
        refine ⟨?_, ih h.2⟩
        intro m hm
        rcases mem_keys_place hm with rfl | hm
        · exact Std.lt_of_le_of_ne (Std.not_lt.mp hge) fun e => hne e.symm
        · exact h.1 m hm

def insert (vs : Variables) (name : String) (value : Constant) : Variables :=
  ⟨place name value vs.entries, sorted_place name value vs.sorted⟩

def get? (vs : Variables) (name : String) : Option Constant := Entries.get? name vs.entries

theorem get?_insert (vs : Variables) (name : String) (value : Constant) (m : String) :
    (vs.insert name value).get? m = if name = m then some value else vs.get? m := by
  show Entries.get? m (place name value vs.entries) = _
  unfold get?
  induction vs.entries with
  | nil => rfl
  | cons head rest ih =>
    obtain ⟨n, v⟩ := head
    unfold place
    split
    · rfl
    · split
      · rename_i heq
        subst heq
        simp only [Entries.get?]
        split <;> rfl
      · rename_i hne
        simp only [Entries.get?, ih]
        by_cases hm : n = m
        · subst hm
          simp only [hne, if_true, if_false]
        · simp only [hm, if_false]

def names (vs : Variables) : List String := vs.entries.map Prod.fst

def size (vs : Variables) : Nat := vs.entries.length

/-- The pairs, of which the last of a name counts. -/
def ofPairs (pairs : List (String × Constant)) : Variables :=
  pairs.foldl (fun vs (name, value) => vs.insert name value) empty

/-- The fields of an object; other values hold no variables. -/
def ofValue : Constant → Variables
  | .object fields => ofPairs fields
  | _ => empty

def ofJson (v : Json) : Variables := ofValue (Constant.ofJson v)

/-- The members of an object, or none for `null`; other values are refused. -/
def decode : Json → Except DecodeError Variables
  | .null => .ok empty
  | .object members => .ok (ofPairs (Constant.ofMembers members))
  | v => .error (.invalidType v.toDatum.found "a map")

def toJson (vs : Variables) : Json := .object (Constant.toMembers vs.entries)

/-- The variables as messages show them. -/
def text (vs : Variables) : String := Constant.text (.object vs.entries)

end Variables

end QueryCost
