/-
  QueryCost.Proofs.Variables.Routes — the routes into the variables agree and lose nothing.

  Writing a new name adds its entry, so of pairs with distinct names every one is held, and
  nothing else. The order of the names is part of the type: whatever order the pairs are
  written in, the variables are the same. A JSON value reads back from its constant, so an
  object reads back from its variables but for the order of its own members.

  - `toJson_ofJson`: a constant made from a JSON value is written as that value.
  - `place_perm_of_new`, `ofPairs_perm`: what is held are the pairs that were written.
  - `ofPairs_of_perm`: the order they were written in does not matter.
  - `routes_agree`: the three routes, the look-up and the way back, for all JSON values.
-/

import Mathlib.Data.List.Basic
import QueryCost.Proofs.Text.ByteOrder
import QueryCost.Variables

namespace QueryCost

/-! ## A JSON value and its constant -/

namespace Constant

mutual

/-- A JSON value is written back from its constant as it was. -/
theorem toJson_ofJson (v : Json) : (ofJson v).toJson = v := by
  cases v with
  | array items => simp only [ofJson, toJson, toItems_ofItems items]
  | object members => simp only [ofJson, toJson, toMembers_ofMembers members]
  | _ => simp only [ofJson, toJson]

theorem toItems_ofItems (items : List Json) : toItems (ofItems items) = items := by
  cases items with
  | nil => rfl
  | cons v rest => simp only [ofItems, toItems, toJson_ofJson v, toItems_ofItems rest]

theorem toMembers_ofMembers (members : List (String × Json)) : toMembers (ofMembers members) = members := by
  cases members with
  | nil => rfl
  | cons member rest => simp only [ofMembers, toMembers, toJson_ofJson member.2, toMembers_ofMembers rest]

end

theorem ofMembers_eq_map (members : List (String × Json)) :
    ofMembers members = members.map fun member => (member.1, ofJson member.2) := by
  induction members with
  | nil => rfl
  | cons member rest ih => rw [ofMembers, ih, List.map_cons]

theorem keys_ofMembers (members : List (String × Json)) : (ofMembers members).map Prod.fst = members.map Prod.fst := by
  rw [ofMembers_eq_map, List.map_map]
  rfl

theorem toMembers_eq_map (fields : List (String × Constant)) :
    toMembers fields = fields.map fun field => (field.1, field.2.toJson) := by
  induction fields with
  | nil => rfl
  | cons field rest ih => rw [toMembers, ih, List.map_cons]

end Constant

/-! ## Pairs with distinct names -/

namespace Variables

variable {pairs : List (String × Constant)}

/-- Writing a new name adds its entry and keeps the others. -/
theorem place_perm_of_new {name : String} {entries : List (String × Constant)} (value : Constant)
    (h : name ∉ entries.map Prod.fst) : (place name value entries).Perm ((name, value) :: entries) := by
  induction entries with
  | nil => rfl
  | cons head rest ih =>
    obtain ⟨n, v⟩ := head
    simp only [List.map_cons, List.mem_cons, not_or] at h
    obtain ⟨hne, hrest⟩ := h
    rw [place, if_neg hne]
    split
    · rfl
    · exact ((ih hrest).cons (n, v)).trans (.swap (name, value) (n, v) rest)

theorem foldl_insert_perm {vs : Variables} (h : (vs.names ++ pairs.map Prod.fst).Nodup) :
    (pairs.foldl (fun vs (name, value) => vs.insert name value) vs).entries.Perm (vs.entries ++ pairs) := by
  induction pairs generalizing vs with
  | nil => rw [List.foldl_nil, List.append_nil]
  | cons pair rest ih =>
    obtain ⟨name, value⟩ := pair
    have hnew : name ∉ vs.names := by
      intro hmem
      exact (List.nodup_append.mp h).2.2 name hmem name (List.mem_cons_self ..) rfl
    have hplace : (vs.insert name value).entries.Perm ((name, value) :: vs.entries) := place_perm_of_new value hnew
    have hnames : ((vs.insert name value).names ++ rest.map Prod.fst).Perm (vs.names ++ name :: rest.map Prod.fst) :=
      ((hplace.map Prod.fst).append_right _).trans List.perm_middle.symm
    exact (ih (hnames.nodup_iff.mpr h)).trans ((hplace.append_right rest).trans List.perm_middle.symm)

/-- What is held are the pairs. -/
theorem ofPairs_perm (h : (pairs.map Prod.fst).Nodup) : (ofPairs pairs).entries.Perm pairs :=
  have hnames : (empty.names ++ pairs.map Prod.fst).Nodup := h
  foldl_insert_perm hnames

theorem entries_sorted (vs : Variables) : vs.entries.Pairwise fun a b => a.1 < b.1 := List.pairwise_map.mp vs.sorted

/-- Variables with the same entries are equal, for the order is that of the names. -/
theorem eq_of_perm {vs ws : Variables} (h : vs.entries.Perm ws.entries) : vs = ws := by
  have hentries : vs.entries = ws.entries :=
    h.eq_of_pairwise (fun a b _ _ hab hba => absurd hba (String.lt_asymm hab)) vs.entries_sorted ws.entries_sorted
  cases vs
  cases ws
  cases hentries
  rfl

/-- The order the pairs are written in does not matter. -/
theorem ofPairs_of_perm {pairs' : List (String × Constant)} (h : (pairs.map Prod.fst).Nodup)
    (hperm : pairs'.Perm pairs) : ofPairs pairs' = ofPairs pairs :=
  eq_of_perm (((ofPairs_perm ((hperm.map Prod.fst).nodup_iff.mpr h)).trans hperm).trans (ofPairs_perm h).symm)

theorem nodup_names (vs : Variables) : vs.names.Nodup := vs.sorted.imp fun h => String.ne_of_lt h

theorem get?_eq_some_iff (vs : Variables) {name : String} {value : Constant} :
    vs.get? name = some value ↔ (name, value) ∈ vs.entries :=
  ⟨Entries.mem_of_get?, Entries.get?_of_mem vs.nodup_names⟩

theorem get?_ofPairs_of_mem {name : String} {value : Constant} (h : (pairs.map Prod.fst).Nodup)
    (hmem : (name, value) ∈ pairs) : (ofPairs pairs).get? name = some value :=
  (get?_eq_some_iff _).mpr ((ofPairs_perm h).mem_iff.mpr hmem)

theorem get?_ofPairs_of_new {name : String} (h : (pairs.map Prod.fst).Nodup) (hnew : name ∉ pairs.map Prod.fst) :
    (ofPairs pairs).get? name = none := by
  rw [Option.eq_none_iff_forall_ne_some]
  intro value hvalue
  have hmem : (name, value) ∈ pairs := (ofPairs_perm h).mem_iff.mp ((get?_eq_some_iff _).mp hvalue)
  exact hnew (List.mem_map_of_mem hmem)

/-! ## The routes -/

theorem ofJson_object (members : List (String × Json)) :
    ofJson (.object members) = ofPairs (Constant.ofMembers members) := by
  rw [ofJson, Constant.ofJson, ofValue]

/-- Written as JSON, the variables of an object are its members in the order of their keys. -/
theorem toJson_ofJson_object {members : List (String × Json)} (h : (members.map Prod.fst).Nodup) :
    ∃ sorted : List (String × Json), sorted.Perm members ∧
      sorted.Pairwise (fun a b => utf8Bytes a.1 < utf8Bytes b.1) ∧
      (ofJson (.object members)).toJson = .object sorted := by
  have hentries : (ofJson (.object members)).entries.Perm (Constant.ofMembers members) := by
    rw [ofJson_object]
    exact ofPairs_perm ((Constant.keys_ofMembers members).symm ▸ h)
  refine ⟨Constant.toMembers (ofJson (.object members)).entries, ?_, ?_, rfl⟩
  · have hmembers : (Constant.toMembers (ofJson (.object members)).entries).Perm
        (Constant.toMembers (Constant.ofMembers members)) := by
      rw [Constant.toMembers_eq_map, Constant.toMembers_eq_map]
      exact hentries.map _
    rwa [Constant.toMembers_ofMembers] at hmembers
  · rw [Constant.toMembers_eq_map, List.pairwise_map]
    exact (ofJson (.object members)).entries_sorted.imp utf8Bytes_lt_iff.mpr

/-- The variables of an object with distinct keys are the same as JSON, as data and as pairs in
    any order. A key is found with the constant of its member and other names are not, and what
    is written is the object with its own members, not those inside them, in the order of the
    bytes of their keys. Other values hold no variables. -/
theorem routes_agree :
    (∀ members : List (String × Json), (members.map Prod.fst).Nodup →
      decode (.object members) = .ok (ofJson (.object members)) ∧
      (∀ pairs, pairs.Perm (Constant.ofMembers members) →
        ofPairs pairs = ofJson (.object members)) ∧
      (∀ name value, (name, value) ∈ members →
        (ofJson (.object members)).get? name = some (Constant.ofJson value)) ∧
      (∀ name ∉ members.map Prod.fst, (ofJson (.object members)).get? name = none) ∧
      ∃ sorted : List (String × Json), sorted.Perm members ∧
        sorted.Pairwise (fun a b => utf8Bytes a.1 < utf8Bytes b.1) ∧
        (ofJson (.object members)).toJson = .object sorted) ∧
      ∀ v : Json, (∀ members, v ≠ .object members) → ofJson v = ∅ := by
  refine ⟨fun members h => ?_, ?_⟩
  · have hkeys : ((Constant.ofMembers members).map Prod.fst).Nodup := (Constant.keys_ofMembers members).symm ▸ h
    refine ⟨rfl, fun pairs hpairs => ?_, fun name value hmem => ?_, fun name hnew => ?_,
      toJson_ofJson_object h⟩
    · rw [ofJson_object]
      exact ofPairs_of_perm hkeys hpairs
    · have hpair : (name, Constant.ofJson value) ∈ Constant.ofMembers members := by
        rw [Constant.ofMembers_eq_map]
        exact List.mem_map.mpr ⟨(name, value), hmem, rfl⟩
      rw [ofJson_object]
      exact get?_ofPairs_of_mem hkeys hpair
    · rw [ofJson_object]
      exact get?_ofPairs_of_new hkeys ((Constant.keys_ofMembers members).symm ▸ hnew)
  · intro v hv
    cases v with
    | object members => exact absurd rfl (hv members)
    | _ => rfl

/-- Members with keys out of order, of one and of several bytes, and an object inside. -/
def oddMembers : List (String × Json) :=
  [("z", .object [("y", .null), ("b", .array [.string "", .boolean true])]), ("\uFFFD", .ofNat 1), ("😀", .null),
    ("", .boolean false), ("é x", .ofNat 2)]

theorem routes_agree_odd :
    (oddMembers.map Prod.fst).Nodup ∧
      decode (.object oddMembers) = .ok (ofJson (.object oddMembers)) ∧
      ofPairs (Constant.ofMembers oddMembers).reverse = ofJson (.object oddMembers) ∧
      (ofJson (.object oddMembers)).get? "z" =
        some (.object [("y", .null), ("b", .list [.string "", .boolean true])]) ∧
      (ofJson (.object oddMembers)).get? "y" = none ∧
      (∃ sorted : List (String × Json), sorted.Perm oddMembers ∧
        sorted.Pairwise (fun a b => utf8Bytes a.1 < utf8Bytes b.1) ∧
        (ofJson (.object oddMembers)).toJson = .object sorted) ∧
      ofJson (.array [.object oddMembers]) = ∅ := by
  have hkeys : (oddMembers.map Prod.fst).Nodup := by decide
  obtain ⟨hdecode, hpairs, hfound, hnew, hjson⟩ := routes_agree.1 oddMembers hkeys
  exact ⟨hkeys, hdecode, hpairs _ (List.reverse_perm _), hfound "z" _ (List.mem_cons_self ..),
    hnew "y" (by decide), hjson, routes_agree.2 _ (fun _ => nofun)⟩

end Variables

end QueryCost
