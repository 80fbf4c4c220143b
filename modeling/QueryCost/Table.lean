/-
  QueryCost.Table — tables in the order their keys first appeared.

  The order of the types of a schema, of the fields of a type and of the fragments of
  a document can be seen from outside, so a table is a list of entries with distinct
  keys. A key that is written again keeps its place and takes the new value.

  - `get?_insert`: a written key reads back, and no other key changes.
  - `keys_insert`: writing a present key leaves the order alone, a new key comes last.
  - `get?_eq_some_iff`: what is read is what is held, so the order of the entries does not
    matter to it (`get?_of_perm`).
-/

namespace QueryCost

namespace Entries

variable {κ α : Type} [DecidableEq κ]

/-- The value of the first entry with this key. -/
def get? (k : κ) : List (κ × α) → Option α
  | [] => none
  | (k', v) :: rest => if k' = k then some v else get? k rest

/-- Writes a key: in place when it is present, at the end when it is new. -/
def put (k : κ) (v : α) : List (κ × α) → List (κ × α)
  | [] => [(k, v)]
  | (k', v') :: rest => if k' = k then (k, v) :: rest else (k', v') :: put k v rest

/-- The table that writing these pairs one after the other leaves. -/
def ofPairs (pairs : List (κ × α)) : List (κ × α) :=
  pairs.foldl (fun entries (k, v) => put k v entries) []

theorem keys_put (k : κ) (v : α) (entries : List (κ × α)) :
    (put k v entries).map Prod.fst =
      if k ∈ entries.map Prod.fst then entries.map Prod.fst else entries.map Prod.fst ++ [k] := by
  induction entries with
  | nil => simp [put]
  | cons head rest ih =>
    obtain ⟨k', v'⟩ := head
    by_cases h : k' = k
    · simp [put, h]
    · have h' : k ≠ k' := fun e => h e.symm
      by_cases m : k ∈ rest.map Prod.fst
      · simp only [put, h, if_false, List.map_cons, ih, m, if_true, List.mem_cons, h', false_or]
      · simp only [put, h, if_false, List.map_cons, ih, m, List.mem_cons, h', false_or, List.cons_append]

theorem nodup_put {k : κ} {v : α} {entries : List (κ × α)} (h : (entries.map Prod.fst).Nodup) :
    ((put k v entries).map Prod.fst).Nodup := by
  rw [keys_put]
  split
  · exact h
  · rename_i hk
    refine List.nodup_append.mpr ⟨h, by simp, ?_⟩
    intro a ha b hb e
    rw [List.mem_singleton.mp hb] at e
    exact hk (e ▸ ha)

/-- A new key comes last. -/
theorem put_of_new {k : κ} {v : α} {entries : List (κ × α)} (h : k ∉ entries.map Prod.fst) :
    put k v entries = entries ++ [(k, v)] := by
  induction entries with
  | nil => rfl
  | cons head rest ih =>
    obtain ⟨k', v'⟩ := head
    simp only [List.map_cons, List.mem_cons, not_or] at h
    rw [put, if_neg fun e => h.1 e.symm, ih h.2, List.cons_append]

theorem get?_put (k : κ) (v : α) (entries : List (κ × α)) (j : κ) :
    get? j (put k v entries) = if k = j then some v else get? j entries := by
  induction entries with
  | nil => simp [put, get?]
  | cons head rest ih =>
    obtain ⟨k', v'⟩ := head
    by_cases h : k' = k
    · subst h
      by_cases hj : k' = j <;> simp [put, get?, hj]
    · by_cases hj : k' = j
      · subst hj
        have h' : ¬k = k' := fun e => h e.symm
        simp [put, get?, h, h']
      · simp [put, get?, h, hj, ih]

theorem mem_of_get? {k : κ} {v : α} {entries : List (κ × α)} (h : get? k entries = some v) : (k, v) ∈ entries := by
  induction entries with
  | nil => cases h
  | cons head rest ih =>
    obtain ⟨k', v'⟩ := head
    unfold get? at h
    split at h
    · rename_i e; cases h; rw [e]; exact List.mem_cons_self ..
    · exact List.mem_cons_of_mem _ (ih h)

theorem get?_of_mem {k : κ} {v : α} {entries : List (κ × α)} (hd : (entries.map Prod.fst).Nodup)
    (h : (k, v) ∈ entries) : get? k entries = some v := by
  induction entries with
  | nil => cases h
  | cons head rest ih =>
    obtain ⟨k', v'⟩ := head
    obtain ⟨hk, hrest⟩ := List.nodup_cons.mp hd
    unfold get?
    rcases List.mem_cons.mp h with e | h
    · cases e; exact if_pos rfl
    · have hmem : k ∈ rest.map Prod.fst := List.mem_map_of_mem h
      have hne : k' ≠ k := fun e => hk (e ▸ hmem)
      rw [if_neg hne]
      exact ih hrest h

end Entries

/-- Entries with distinct keys, in the order the keys first appeared. -/
structure Table (κ α : Type) where
  entries : List (κ × α)
  nodup : (entries.map Prod.fst).Nodup
  deriving DecidableEq, Repr

namespace Table

variable {κ α β : Type}

def empty : Table κ α := ⟨[], List.nodup_nil⟩

instance : EmptyCollection (Table κ α) := ⟨empty⟩
instance : Inhabited (Table κ α) := ⟨empty⟩

def keys (t : Table κ α) : List κ := t.entries.map Prod.fst

def values (t : Table κ α) : List α := t.entries.map Prod.snd

variable [DecidableEq κ]

def get? (t : Table κ α) (k : κ) : Option α := Entries.get? k t.entries

def contains (t : Table κ α) (k : κ) : Bool := (t.get? k).isSome

/-- Writes a key; a present one keeps its place. -/
def insert (t : Table κ α) (k : κ) (v : α) : Table κ α :=
  ⟨Entries.put k v t.entries, Entries.nodup_put t.nodup⟩

/-- Writes a key only when it is new. -/
def insertNew (t : Table κ α) (k : κ) (v : α) : Table κ α :=
  if t.contains k then t else t.insert k v

/-- Writes the pairs one after the other. -/
def insertAll (t : Table κ α) (pairs : List (κ × α)) : Table κ α :=
  pairs.foldl (fun t (k, v) => t.insert k v) t

def ofPairs (pairs : List (κ × α)) : Table κ α := empty.insertAll pairs

theorem get?_insert (t : Table κ α) (k : κ) (v : α) (j : κ) :
    (t.insert k v).get? j = if k = j then some v else t.get? j :=
  Entries.get?_put k v t.entries j

/-- A key that is present keeps its value. -/
theorem get?_insertNew (t : Table κ α) (k : κ) (v : α) (j : κ) :
    (t.insertNew k v).get? j = (t.get? j).or (if k = j then some v else none) := by
  unfold insertNew contains
  by_cases hj : k = j
  · subst hj
    cases hk : t.get? k <;> simp [hk, get?_insert]
  · cases hk : (t.get? k).isSome <;> simp [get?_insert, hj]

theorem keys_insert (t : Table κ α) (k : κ) (v : α) :
    (t.insert k v).keys = if k ∈ t.keys then t.keys else t.keys ++ [k] :=
  Entries.keys_put k v t.entries

/-- A new key comes last, with its value. -/
theorem entries_insertNew {t : Table κ α} {k : κ} (h : k ∉ t.keys) (v : α) :
    (t.insertNew k v).entries = t.entries ++ [(k, v)] := by
  have hnew : t.contains k = false := by
    cases hk : t.get? k with
    | none => simp [contains, hk]
    | some w => exact absurd (List.mem_map_of_mem (Entries.mem_of_get? hk)) h
  rw [insertNew, hnew]
  exact Entries.put_of_new h

theorem get?_eq_some_iff (t : Table κ α) {k : κ} {v : α} : t.get? k = some v ↔ (k, v) ∈ t.entries :=
  ⟨Entries.mem_of_get?, Entries.get?_of_mem t.nodup⟩

theorem contains_iff_mem_keys (t : Table κ α) (k : κ) : t.contains k = true ↔ k ∈ t.keys := by
  simp only [contains, Option.isSome_iff_exists, get?_eq_some_iff, keys, List.mem_map]
  constructor
  · rintro ⟨v, hv⟩
    exact ⟨(k, v), hv, rfl⟩
  · rintro ⟨⟨_, v⟩, hv, rfl⟩
    exact ⟨v, hv⟩

/-- Tables with the same entries read alike, whatever their order. -/
theorem get?_of_perm {t t' : Table κ α} (h : t.entries.Perm t'.entries) (k : κ) : t'.get? k = t.get? k := by
  apply Option.ext
  intro v
  rw [get?_eq_some_iff, get?_eq_some_iff]
  exact h.mem_iff.symm

end Table

end QueryCost
