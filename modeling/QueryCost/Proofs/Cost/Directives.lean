/-
  QueryCost.Proofs.Cost.Directives — what cost directives declare.

  Of the directives on an element the first that is a cost directive is read, and of an argument
  of it the first that is given. An argument may be open, that is left out or `null`; otherwise a
  number has to be a size, and names a string or a list of strings. Whatever else is given is
  what the argument is refused for, and the first argument that is refused is the error.

  - `Directive.size_eq_ok_iff`, `size_eq_error_iff`, `names_eq_ok_iff`, `names_eq_error_iff`: what
    an argument is read as, and what it is refused for.
  - `DeclaredCost.ofDirective_eq_ok_iff`, `ofDirective_eq_error_iff`: the same of a cost directive.
  - `declares_toDirective`: the directive written for a cost declares it.
  - `cost_read_exactly`: what the directives on an element come to.
-/

import QueryCost.Proofs.Schema.Additions
import QueryCost.Proofs.Tables

namespace QueryCost

/-! ## Sizes and sets of names -/

theorem Number.size?_eq_some_iff {n : Number} {a : Size} : n.size? = some a ↔ n = .ofSize a := by
  obtain ⟨a, ha⟩ := a
  have hlimit : Size.limit = 18446744073709551615 := rfl
  cases n with
  | real x => simp [size?, ofSize]
  | integer z hz =>
    simp only [size?, ofSize, Size.ofNat?, Number.integer.injEq]
    split
    · rw [dif_pos (by omega), Option.some.injEq, Size.mk.injEq]
      omega
    · simp only [reduceCtorEq, false_iff]
      omega

theorem Number.size?_ofSize (a : Size) : (ofSize a).size? = some a := size?_eq_some_iff.mpr rfl

theorem NameSet.ext {s t : NameSet} (h : s.names = t.names) : s = t := by
  cases s
  cases t
  cases h
  rfl

/-- The names of a list, each where it first occurs. -/
theorem NameSet.names_ofList (names : List String) : (ofList names).names = names.eraseDups := by
  induction names using List.reverseRecOn with
  | nil => rfl
  | append_singleton names name ih =>
    have hstep : ofList (names ++ [name]) = (ofList names).add name := List.foldl_concat ..
    have hmem : name ∈ (ofList names).names ↔ name ∈ names := by rw [ih, List.mem_eraseDups]
    rw [hstep, eraseDups_concat, ← ih, add]
    by_cases h : name ∈ names
    · rw [dif_pos (hmem.mpr h), if_pos h]
    · rw [dif_neg (mt hmem.mp h), if_neg h]

/-- A list comes to these names when they are what first occurs in it. -/
theorem NameSet.ofList_eq_iff {names : List String} {s : NameSet} : ofList names = s ↔ s.names = names.eraseDups := by
  rw [← names_ofList]
  constructor
  · rintro rfl
    rfl
  · intro h
    exact ext h.symm

theorem NameSet.empty_eq_iff {s : NameSet} : ∅ = s ↔ s.names = [] := @ofList_eq_iff [] s

theorem listCostDirective_ne_costDirective : listCostDirective ≠ costDirective := by decide

namespace Directive

variable (d : Directive Empty) (argument : String)

/-! ## Arguments -/

/-- The argument is left out or `null`. -/
def LeavesOpen : Prop := d.argument? argument = none ∨ d.argument? argument = some .null

/-- The argument gives this number, or leaves it open. -/
def GivesSize : Option Size → Prop
  | none => d.LeavesOpen argument
  | some a => d.argument? argument = some (.number (.ofSize a))

/-- The argument gives these names: none, one by itself, or a list of them, in which a name counts
    where it first occurs. -/
def GivesNames (names : NameSet) : Prop :=
  (d.LeavesOpen argument ∧ names.names = []) ∨
    (∃ s, d.argument? argument = some (.string s) ∧ names.names = [s]) ∨
    ∃ l : List String, d.argument? argument = some (.list (l.map .string)) ∧ names.names = l.eraseDups

/-- What the argument is given as is neither `null` nor a size. -/
inductive RefusesSize : ArgumentProblem → Prop
  | notSize {v : Constant} (given : d.argument? argument = some v) (hnull : v ≠ .null)
      (hsize : ∀ a : Size, v ≠ .number (.ofSize a)) : RefusesSize (.notSize argument v)

/-- What the argument is given as is neither `null` nor a string nor a list, or it is a list and
    the problem is the first in it that is no string. -/
inductive RefusesNames : ArgumentProblem → Prop
  | notNames {v : Constant} (given : d.argument? argument = some v) (hnull : v ≠ .null)
      (hstring : ∀ s, v ≠ .string s) (hlist : ∀ items, v ≠ .list items) : RefusesNames (.notNames argument v)
  | notName {before : List String} {v : Constant} {after : List Constant}
      (given : d.argument? argument = some (.list (before.map .string ++ v :: after)))
      (hstring : ∀ s, v ≠ .string s) : RefusesNames (.notName argument v)

variable {d argument}

theorem size_eq_ok_iff {n : Option Size} : d.size argument = .ok n ↔ d.GivesSize argument n := by
  cases hgiven : d.argument? argument with
  | none => cases n <;> simp [size, GivesSize, LeavesOpen, hgiven]
  | some v =>
    cases v with
    | number m =>
      cases n with
      | none => cases hm : m.size? <;> simp [size, GivesSize, LeavesOpen, hgiven, hm]
      | some a =>
        simp only [GivesSize, hgiven, Option.some.injEq, Value.number.injEq, ← Number.size?_eq_some_iff]
        cases hm : m.size? <;> simp [size, hgiven, hm]
    | _ => cases n <;> simp [size, GivesSize, LeavesOpen, hgiven]

theorem size_eq_error_iff {p : ArgumentProblem} : d.size argument = .error p ↔ d.RefusesSize argument p := by
  constructor
  · intro h
    unfold size at h
    split at h
    · cases h
    · cases h
    · rename_i n hgiven
      split at h
      · cases h
      · rename_i hn
        cases h
        refine .notSize hgiven nofun fun a ha => ?_
        cases ha
        rw [Number.size?_ofSize] at hn
        cases hn
    · rename_i v hnull hnumber hgiven
      cases h
      exact .notSize hgiven hnull fun a => hnumber (.ofSize a)
  · rintro ⟨hgiven, hnull, hsize⟩
    rename_i v
    unfold size
    rw [hgiven]
    cases v with
    | null => exact absurd rfl hnull
    | number n =>
      cases hn : n.size? with
      | none => simp only [hn]
      | some a => exact absurd (congrArg Value.number (Number.size?_eq_some_iff.mp hn)) (hsize a)
    | _ => rfl

theorem listedNames_eq_ok_iff {items : List Constant} {names : List String} :
    listedNames argument items = .ok names ↔ items = names.map .string := by
  induction items generalizing names with
  | nil => simp [listedNames, @eq_comm _ [] names]
  | cons v rest ih =>
    cases v with
    | string s =>
      cases names with
      | nil => simp [listedNames, bind_eq_ok_iff, pure, Except.pure]
      | cons name names => simp [listedNames, bind_eq_ok_iff, pure, Except.pure, ih, and_comm]
    | _ => cases names <;> simp [listedNames]

/-- The strings in front of it are passed over. -/
theorem listedNames_append {v : Constant} (hstring : ∀ s, v ≠ .string s) (before : List String) (after : List Constant) :
    listedNames argument (before.map .string ++ v :: after) = .error (.notName argument v) := by
  induction before with
  | nil =>
    cases v with
    | string s => exact absurd rfl (hstring s)
    | _ => rfl
  | cons s before ih =>
    rw [List.map_cons, List.cons_append, listedNames, ih]
    rfl

theorem exists_of_listedNames_error {items : List Constant} {p : ArgumentProblem}
    (h : listedNames argument items = .error p) :
    ∃ (before : List String) (v : Constant) (after : List Constant),
      items = before.map .string ++ v :: after ∧ (∀ s, v ≠ .string s) ∧ p = .notName argument v := by
  induction items with
  | nil => cases h
  | cons v rest ih =>
    cases v with
    | string s =>
      rcases error_of_bind h with h | ⟨names, -, h⟩
      · obtain ⟨before, v, after, rfl, hstring, rfl⟩ := ih h
        exact ⟨s :: before, v, after, rfl, hstring, rfl⟩
      · cases h
    | _ =>
      cases h
      exact ⟨[], _, rest, rfl, nofun, rfl⟩

theorem names_eq_ok_iff {names : NameSet} : d.names argument = .ok names ↔ d.GivesNames argument names := by
  cases hgiven : d.argument? argument with
  | none => simp [Directive.names, GivesNames, LeavesOpen, hgiven, NameSet.empty_eq_iff]
  | some v =>
    cases v with
    | null => simp [Directive.names, GivesNames, LeavesOpen, hgiven, NameSet.empty_eq_iff]
    | string s => simp [Directive.names, GivesNames, LeavesOpen, hgiven, NameSet.ofList_eq_iff, List.eraseDups_cons]
    | list items =>
      simp [Directive.names, GivesNames, LeavesOpen, hgiven, bind_eq_ok_iff, listedNames_eq_ok_iff,
        pure, Except.pure, NameSet.ofList_eq_iff]
    | _ => simp [Directive.names, GivesNames, LeavesOpen, hgiven]

theorem names_eq_error_iff {p : ArgumentProblem} : d.names argument = .error p ↔ d.RefusesNames argument p := by
  constructor
  · intro h
    unfold names at h
    split at h
    · cases h
    · cases h
    · cases h
    · rename_i items hgiven
      rcases error_of_bind h with h | ⟨names, -, h⟩
      · obtain ⟨before, v, after, rfl, hstring, rfl⟩ := exists_of_listedNames_error h
        exact .notName hgiven hstring
      · cases h
    · rename_i v hnull hstring hlist hgiven
      cases h
      exact .notNames hgiven hnull hstring hlist
  · intro h
    cases h with
    | notNames hgiven hnull hstring hlist =>
      rename_i v
      unfold names
      rw [hgiven]
      cases v with
      | null => exact absurd rfl hnull
      | string s => exact absurd rfl (hstring s)
      | list items => exact absurd rfl (hlist items)
      | _ => rfl
    | notName hgiven hstring =>
      unfold names
      simp only [hgiven, listedNames_append hstring]
      rfl

/-! ## Cost directives -/

variable (d)

/-- Each argument that counts is open or well formed. -/
structure WellFormed : Prop where
  complexity : ∃ n, d.GivesSize "complexity" n
  assumedSize : d.name = listCostDirective → ∃ n, d.GivesSize "assumedSize" n
  arguments : d.name = listCostDirective → ∃ names, d.GivesNames "arguments" names

/-- The directive declares this cost: by its name the kind of cost, by its arguments the values. -/
def Declares : DeclaredCost → Prop
  | .flat complexity => d.name = costDirective ∧ d.GivesSize "complexity" complexity
  | .list complexity assumedSize names =>
    d.name = listCostDirective ∧ d.GivesSize "complexity" complexity ∧ d.GivesSize "assumedSize" assumedSize ∧
      d.GivesNames "arguments" names

/-- The problem is that of the first argument that is refused. -/
inductive Refused : ArgumentProblem → Prop
  | complexity {p : ArgumentProblem} (h : d.RefusesSize "complexity" p) : Refused p
  | assumedSize {p : ArgumentProblem} (hlist : d.name = listCostDirective) (hcomplexity : ∃ n, d.GivesSize "complexity" n)
      (h : d.RefusesSize "assumedSize" p) : Refused p
  | arguments {p : ArgumentProblem} (hlist : d.name = listCostDirective) (hcomplexity : ∃ n, d.GivesSize "complexity" n)
      (hassumed : ∃ n, d.GivesSize "assumedSize" n) (h : d.RefusesNames "arguments" p) : Refused p

variable {d}

theorem isCost_iff : d.isCost = true ↔ d.name = costDirective ∨ d.name = listCostDirective := by
  rw [isCost, Bool.or_eq_true, decide_eq_true_eq, decide_eq_true_eq]

/-- A cost directive declares a cost when its arguments are well formed. -/
theorem wellFormed_iff (hd : d.isCost = true) : d.WellFormed ↔ ∃ c, d.Declares c := by
  constructor
  · rintro ⟨⟨complexity, hcomplexity⟩, hassumed, hnames⟩
    rcases isCost_iff.mp hd with hname | hname
    · exact ⟨.flat complexity, hname, hcomplexity⟩
    · obtain ⟨assumedSize, hassumed⟩ := hassumed hname
      obtain ⟨names, hnames⟩ := hnames hname
      exact ⟨.list complexity assumedSize names, hname, hcomplexity, hassumed, hnames⟩
  · rintro ⟨c, hc⟩
    cases c with
    | flat complexity =>
      have hflat : d.name ≠ listCostDirective := fun hlist => listCostDirective_ne_costDirective (hlist.symm.trans hc.1)
      exact ⟨⟨complexity, hc.2⟩, fun hlist => absurd hlist hflat, fun hlist => absurd hlist hflat⟩
    | list complexity assumedSize names =>
      obtain ⟨-, hcomplexity, hassumed, hnames⟩ := hc
      exact ⟨⟨complexity, hcomplexity⟩, fun _ => ⟨assumedSize, hassumed⟩, fun _ => ⟨names, hnames⟩⟩

end Directive

namespace DeclaredCost

variable {d : Directive Empty}

theorem ofDirective_of_flat (hname : d.name = costDirective) :
    ofDirective d = d.size "complexity" >>= fun complexity => .ok (some (.flat complexity)) := by
  rw [ofDirective, if_pos hname]
  rfl

theorem ofDirective_of_list (hname : d.name = listCostDirective) :
    ofDirective d =
      d.size "complexity" >>= fun complexity =>
        d.size "assumedSize" >>= fun assumedSize =>
          d.names "arguments" >>= fun names => .ok (some (.list complexity assumedSize names)) := by
  have hflat : d.name ≠ costDirective := hname ▸ listCostDirective_ne_costDirective
  rw [ofDirective, if_neg hflat, if_pos hname]
  rfl

theorem ofDirective_eq_ok_iff (hd : d.isCost = true) {cost : Option DeclaredCost} :
    ofDirective d = .ok cost ↔ ∃ c, cost = some c ∧ d.Declares c := by
  rcases Directive.isCost_iff.mp hd with hname | hname
  · simp only [ofDirective_of_flat hname, bind_eq_ok_iff, Directive.size_eq_ok_iff, Except.ok.injEq]
    constructor
    · rintro ⟨complexity, hcomplexity, rfl⟩
      exact ⟨.flat complexity, rfl, hname, hcomplexity⟩
    · rintro ⟨c, rfl, hdeclares⟩
      cases c with
      | flat complexity => exact ⟨complexity, hdeclares.2, rfl⟩
      | list complexity assumedSize names =>
        exact absurd (hdeclares.1.symm.trans hname) listCostDirective_ne_costDirective
  · simp only [ofDirective_of_list hname, bind_eq_ok_iff, Directive.size_eq_ok_iff, Directive.names_eq_ok_iff,
      Except.ok.injEq]
    constructor
    · rintro ⟨complexity, hcomplexity, assumedSize, hassumed, names, hnames, rfl⟩
      exact ⟨.list complexity assumedSize names, rfl, hname, hcomplexity, hassumed, hnames⟩
    · rintro ⟨c, rfl, hdeclares⟩
      cases c with
      | flat complexity => exact absurd (hname.symm.trans hdeclares.1) listCostDirective_ne_costDirective
      | list complexity assumedSize names =>
        obtain ⟨-, hcomplexity, hassumed, hnames⟩ := hdeclares
        exact ⟨complexity, hcomplexity, assumedSize, hassumed, names, hnames, rfl⟩

theorem ofDirective_eq_error_iff (hd : d.isCost = true) {p : ArgumentProblem} :
    ofDirective d = .error p ↔ d.Refused p := by
  rcases Directive.isCost_iff.mp hd with hname | hname
  · simp only [ofDirective_of_flat hname, bind_eq_error_iff, Directive.size_eq_error_iff, reduceCtorEq, and_false,
      exists_false, or_false]
    constructor
    · exact .complexity
    · intro h
      cases h with
      | complexity h => exact h
      | assumedSize hlist | arguments hlist =>
        exact absurd (hlist.symm.trans hname) listCostDirective_ne_costDirective
  · simp only [ofDirective_of_list hname, bind_eq_error_iff, Directive.size_eq_error_iff, Directive.size_eq_ok_iff,
      Directive.names_eq_error_iff, reduceCtorEq, and_false, exists_false, or_false]
    constructor
    · rintro (h | ⟨complexity, hcomplexity, h | ⟨assumedSize, hassumed, h⟩⟩)
      · exact .complexity h
      · exact .assumedSize hname ⟨complexity, hcomplexity⟩ h
      · exact .arguments hname ⟨complexity, hcomplexity⟩ ⟨assumedSize, hassumed⟩ h
    · intro h
      cases h with
      | complexity h => exact .inl h
      | assumedSize _ hcomplexity h =>
        obtain ⟨complexity, hcomplexity⟩ := hcomplexity
        exact .inr ⟨complexity, hcomplexity, .inl h⟩
      | arguments _ hcomplexity hassumed h =>
        obtain ⟨complexity, hcomplexity⟩ := hcomplexity
        obtain ⟨assumedSize, hassumed⟩ := hassumed
        exact .inr ⟨complexity, hcomplexity, .inr ⟨assumedSize, hassumed, h⟩⟩

theorem givesSize_sizeArgument {d : Directive Empty} {argument : String} {n : Option Size}
    (h : d.argument? argument = some (sizeArgument n)) : d.GivesSize argument n := by
  cases n with
  | none => exact .inr h
  | some a => exact h

/-- The directive written for a cost declares it. -/
theorem declares_toDirective (cost : DeclaredCost) : cost.toDirective.Declares cost := by
  cases cost with
  | flat complexity => exact ⟨rfl, givesSize_sizeArgument rfl⟩
  | list complexity assumedSize names =>
    refine ⟨rfl, givesSize_sizeArgument rfl, givesSize_sizeArgument rfl, .inr (.inr ⟨names.names, rfl, ?_⟩)⟩
    exact (eraseDups_of_nodup names.nodup).symm

theorem isCost_toDirective (cost : DeclaredCost) : cost.toDirective.isCost = true := by
  cases cost <;> rfl

/-! ## The directives on an element -/

variable {element : Element} {before after : List (Directive Empty)}

theorem find?_isCost_of_none (h : ∀ d ∈ before, d.isCost = false) : before.find? (·.isCost) = none :=
  List.find?_eq_none.mpr fun d hd => by simp [h d hd]

theorem ofDirectives_of_none (h : ∀ d ∈ before, d.isCost = false) : ofDirectives element before = .ok none := by
  rw [ofDirectives_eq, find?_isCost_of_none h]

/-- Whatever stands behind the first cost directive does not matter. -/
theorem ofDirectives_append (h : ∀ d ∈ before, d.isCost = false) (hd : d.isCost = true) :
    ofDirectives element (before ++ d :: after) = (ofDirective d).mapError fun p => ⟨d.name, element, p⟩ := by
  rw [ofDirectives_eq, List.find?_append, find?_isCost_of_none h, Option.none_or, List.find?_cons_of_pos hd]

theorem ofDirectives_eq_ok_append_iff (h : ∀ d ∈ before, d.isCost = false) (hd : d.isCost = true)
    {cost : Option DeclaredCost} :
    ofDirectives element (before ++ d :: after) = .ok cost ↔ ∃ c, cost = some c ∧ d.Declares c := by
  rw [ofDirectives_append h hd, ← ofDirective_eq_ok_iff hd]
  cases ofDirective d <;> simp [Except.mapError]

theorem ofDirectives_eq_error_append_iff (h : ∀ d ∈ before, d.isCost = false) (hd : d.isCost = true)
    {e : DirectiveError} :
    ofDirectives element (before ++ d :: after) = .error e ↔
      e.directive = d.name ∧ e.element = element ∧ d.Refused e.problem := by
  obtain ⟨directive, element', p⟩ := e
  rw [ofDirectives_append h hd, ← ofDirective_eq_error_iff hd]
  cases ofDirective d <;> simp [Except.mapError, eq_comm]

/-- The first cost directive decides, whatever stands around it; without one no cost is declared.
    It is read when every argument that counts is open or well formed, and then as the cost it
    declares; otherwise the error names it, the element, and what the first argument that is
    refused is refused for. A cost that is written as a directive is read again. -/
theorem cost_read_exactly (element : Element) (before : List (Directive Empty)) (hbefore : ∀ d ∈ before, d.isCost = false) :
    ofDirectives element before = .ok none ∧
      (∀ (d : Directive Empty) (after : List (Directive Empty)), d.isCost = true →
        ((∃ cost, ofDirectives element (before ++ d :: after) = .ok cost) ↔ d.WellFormed) ∧
          (∀ cost, ofDirectives element (before ++ d :: after) = .ok cost ↔ ∃ c, cost = some c ∧ d.Declares c) ∧
          ∀ e, ofDirectives element (before ++ d :: after) = .error e ↔
            e.directive = d.name ∧ e.element = element ∧ d.Refused e.problem) ∧
      ∀ (cost : DeclaredCost) (after : List (Directive Empty)),
        ofDirectives element (before ++ cost.toDirective :: after) = .ok (some cost) := by
  refine ⟨ofDirectives_of_none hbefore, fun d after hd => ⟨?_, ?_, ?_⟩, fun cost after => ?_⟩
  · simp only [ofDirectives_eq_ok_append_iff hbefore hd, Directive.wellFormed_iff hd]
    constructor
    · rintro ⟨_, c, -, hc⟩
      exact ⟨c, hc⟩
    · rintro ⟨c, hc⟩
      exact ⟨some c, c, rfl, hc⟩
  · intro cost
    exact ofDirectives_eq_ok_append_iff hbefore hd
  · intro e
    exact ofDirectives_eq_error_append_iff hbefore hd
  · exact (ofDirectives_eq_ok_append_iff hbefore cost.isCost_toDirective).mpr ⟨cost, rfl, cost.declares_toDirective⟩

/-- A list of one name is declared behind a directive of another kind; the cost that cannot be
    read stands behind it and does not matter, and is the error where it stands in front. -/
theorem cost_read_exactly_deprecated :
    ofDirectives (.field "Query" "items")
        ([⟨"deprecated", []⟩] ++ ⟨"listCost", [("arguments", .string "first")]⟩ ::
          [⟨"cost", [("complexity", .string "dear")]⟩]) =
        .ok (some (.list none none (.ofList ["first"]))) ∧
      ofDirectives (.field "Query" "items")
          ([⟨"deprecated", []⟩] ++ ⟨"cost", [("complexity", .string "dear")]⟩ ::
            [⟨"listCost", [("arguments", .string "first")]⟩]) =
        .error ⟨"cost", .field "Query" "items", .notSize "complexity" (.string "dear")⟩ := by
  have hbefore : ∀ d ∈ [(⟨"deprecated", []⟩ : Directive Empty)], d.isCost = false := by decide
  obtain ⟨-, hread, -⟩ := cost_read_exactly (.field "Query" "items") [⟨"deprecated", []⟩] hbefore
  constructor
  · have hdeclares : Directive.Declares ⟨"listCost", [("arguments", .string "first")]⟩
        (.list none none (.ofList ["first"])) :=
      ⟨rfl, .inl rfl, .inl rfl, .inr (.inl ⟨"first", rfl, rfl⟩)⟩
    exact ((hread _ _ (by decide)).2.1 _).mpr ⟨_, rfl, hdeclares⟩
  · exact ((hread _ _ (by decide)).2.2 _).mpr ⟨rfl, rfl, .complexity (.notSize rfl nofun nofun)⟩

end DeclaredCost

end QueryCost
