/-
  QueryCost.Proofs.Cost.Refold — the plain recursion a cost tree stands for.

  `CostTree.refold` goes down a tree without a stack and without keeping anything: at
  every spread it adds up the body of the fragment anew, and a fragment the tree does not
  hold counts nothing. It goes to a given depth and has no value where that is not enough;
  a node `Refolds` to a value when some depth is. Where spreads lead back to themselves
  none is. The recursion is said over any numbers, so the same one is taken with sizes
  (`Costs`) and with unbounded numbers.

  What is reached is said by `Records` (a name spread at a node or at a node attached below
  it), `Spreads` (a fragment whose body records the other) and `Reached`. A tree is
  `Cyclic` from a node when a fragment reached from it spreads itself by way of any others.

  - `refolds_iff`, `refolds_induct`, `refolds_unique`: a node comes to what `cost` says from
    the values of its children, to nothing else, and to one value.
  - `exists_of_refolds`: over an image of the numbers the recursion has a value only where
    it has one over the numbers themselves, and the value is the image of that.
  - `not_cyclic_of_refolds`: where the recursion has a value, no fragment reached spreads
    itself.
-/

import QueryCost.Cost.Tree
import QueryCost.Proofs.Saturation
import Mathlib.Algebra.BigOperators.Group.List.Basic
import Mathlib.Algebra.Group.Hom.Defs
import Mathlib.Data.List.Chain
import Mathlib.Data.List.Forall2
import Mathlib.Logic.Relation

namespace QueryCost

/-- A list is mapped to values exactly when each of its elements is. -/
theorem mapM_eq_some_iff {α β : Type} {f : α → Option β} {l : List α} {values : List β} :
    l.mapM f = some values ↔ List.Forall₂ (fun a b => f a = some b) l values := by
  induction l generalizing values with
  | nil =>
    rw [List.mapM_nil, List.forall₂_nil_left_iff]
    exact ⟨fun h => (Option.some.inj h).symm, fun h => h ▸ rfl⟩
  | cons a rest ih =>
    simp only [List.mapM_cons, Option.bind_eq_bind, Option.pure_def, Option.bind_eq_some_iff, Option.some.injEq]
    constructor
    · rintro ⟨b, hb, bs, hbs, rfl⟩
      exact .cons hb (ih.mp hbs)
    · intro h
      obtain ⟨b, bs, hb, hbs, rfl⟩ := List.forall₂_cons_left_iff.mp h
      exact ⟨b, hb, bs, ih.mpr hbs, rfl⟩

theorem exists_of_forall₂ {α β : Type} {R : α → β → Prop} {l : List α} {values : List β}
    (h : List.Forall₂ R l values) {a : α} (ha : a ∈ l) : ∃ b, R a b := by
  induction h with
  | nil => cases ha
  | @cons a' b' rest values hr _ ih =>
    rcases List.mem_cons.mp ha with rfl | ha
    · exact ⟨b', hr⟩
    · exact ih ha

/-- Related values that all are images are the images of one list. -/
theorem exists_map_of_forall₂ {α β γ : Type} {R : α → β → Prop} {S : α → γ → Prop} {φ : γ → β}
    (hR : ∀ a b, R a b → ∃ c, S a c ∧ φ c = b) {l : List α} {values : List β} (h : List.Forall₂ R l values) :
    ∃ cs, List.Forall₂ S l cs ∧ cs.map φ = values := by
  induction h with
  | nil => exact ⟨[], .nil, rfl⟩
  | cons hr _ ih =>
    obtain ⟨c, hc, rfl⟩ := hR _ _ hr
    obtain ⟨cs, hcs, rfl⟩ := ih
    exact ⟨c :: cs, .cons hc hcs, rfl⟩

namespace CostTree

/-! ## The recursion -/

/-- The node a child stands for: itself, or the body of the fragment it spreads. -/
def target? (t : CostTree) : Child → Option NodeId
  | .node id => some id
  | .fragment f => t.fragments.get? f

/-- The value of a child by the values of the nodes; an undefined fragment has the value 0. -/
def childValue {α : Type} [Zero α] (t : CostTree) (value : NodeId → Option α) (child : Child) : Option α :=
  match t.target? child with
  | some id => value id
  | none => some 0

/-- A child keeps its value where nodes keep theirs. -/
theorem childValue_imp {α : Type} [Zero α] {t : CostTree} {value value' : NodeId → Option α}
    (h : ∀ id v, value id = some v → value' id = some v) {child : Child} {v : α}
    (hv : t.childValue value child = some v) : t.childValue value' child = some v := by
  unfold childValue at hv ⊢
  cases ht : t.target? child with
  | none => rw [ht] at hv; exact hv
  | some id => rw [ht] at hv; exact h id v hv

section

variable {α : Type} [Add α] [Zero α]

/-- What a node comes to, where `cost` says what it comes to from the sum of its children. -/
def refold (t : CostTree) (cost : CostNode → α → α) : Nat → NodeId → Option α
  | 0, _ => none
  | depth + 1, id => do
    let below ← (t.node id).children.mapM (t.childValue (refold t cost depth))
    some (cost (t.node id) below.sum)

/-- The node comes to the value at some depth. -/
def Refolds (t : CostTree) (cost : CostNode → α → α) (id : NodeId) (v : α) : Prop :=
  ∃ depth, t.refold cost depth id = some v

/-- The child comes to the value. -/
def RefoldsChild (t : CostTree) (cost : CostNode → α → α) (child : Child) (v : α) : Prop :=
  match t.target? child with
  | some id => t.Refolds cost id v
  | none => v = 0

variable {t : CostTree} {cost : CostNode → α → α}

theorem refoldsChild_fragment {f : String} {body : NodeId} {v : α} (h : t.fragments.get? f = some body) :
    t.RefoldsChild cost (.fragment f) v ↔ t.Refolds cost body v := by
  simp [RefoldsChild, target?, h]

theorem refoldsChild_undefined {f : String} {v : α} (h : t.fragments.get? f = none) :
    t.RefoldsChild cost (.fragment f) v ↔ v = 0 := by
  simp [RefoldsChild, target?, h]

theorem refold_succ_eq_some {depth : Nat} {id : NodeId} {v : α} :
    t.refold cost (depth + 1) id = some v ↔ ∃ below,
      List.Forall₂ (fun child b => t.childValue (t.refold cost depth) child = some b) (t.node id).children below ∧
        v = cost (t.node id) below.sum := by
  simp only [refold, Option.bind_eq_bind, Option.bind_eq_some_iff, mapM_eq_some_iff, Option.some.injEq]
  exact exists_congr fun below => and_congr_right fun _ => eq_comm

theorem refold_succ {depth : Nat} {id : NodeId} {v : α} (h : t.refold cost depth id = some v) :
    t.refold cost (depth + 1) id = some v := by
  induction depth generalizing id v with
  | zero => cases h
  | succ depth ih =>
    obtain ⟨below, hbelow, hv⟩ := refold_succ_eq_some.mp h
    exact refold_succ_eq_some.mpr ⟨below, hbelow.imp fun child b hb => childValue_imp (fun _ _ => ih) hb, hv⟩

theorem refold_of_le {m n : Nat} {id : NodeId} {v : α} (hle : m ≤ n) (h : t.refold cost m id = some v) :
    t.refold cost n id = some v := by
  induction hle with
  | refl => exact h
  | step _ ih => exact refold_succ ih

theorem refoldsChild_iff {child : Child} {v : α} :
    t.RefoldsChild cost child v ↔ ∃ depth, t.childValue (t.refold cost depth) child = some v := by
  unfold RefoldsChild childValue
  cases t.target? child with
  | none => exact ⟨fun h => ⟨0, congrArg some h.symm⟩, fun ⟨_, h⟩ => (Option.some.inj h).symm⟩
  | some id => exact Iff.rfl

/-- One depth is enough for all the children. -/
theorem exists_depth {children : List Child} {below : List α} (h : List.Forall₂ (t.RefoldsChild cost) children below) :
    ∃ depth, List.Forall₂ (fun child b => t.childValue (t.refold cost depth) child = some b) children below := by
  induction h with
  | nil => exact ⟨0, .nil⟩
  | cons hb _ ih =>
    obtain ⟨m, hm⟩ := ih
    obtain ⟨n, hn⟩ := refoldsChild_iff.mp hb
    refine ⟨max m n, .cons ?_ (hm.imp fun child b hb => ?_)⟩
    · exact childValue_imp (fun _ _ => refold_of_le (Nat.le_max_right m n)) hn
    · exact childValue_imp (fun _ _ => refold_of_le (Nat.le_max_left m n)) hb

/-- Whatever a node's value has whenever the values of its children have it, every value
    of the recursion has. -/
theorem refolds_induct (P : NodeId → α → Prop)
    (step : ∀ id below,
      List.Forall₂ (fun child b => t.RefoldsChild cost child b ∧ ∀ c, t.target? child = some c → P c b)
        (t.node id).children below →
      P id (cost (t.node id) below.sum))
    {id : NodeId} {v : α} (h : t.Refolds cost id v) : P id v := by
  obtain ⟨depth, h⟩ := h
  induction depth generalizing id v with
  | zero => cases h
  | succ depth ih =>
    obtain ⟨below, hbelow, rfl⟩ := refold_succ_eq_some.mp h
    refine step id below (hbelow.imp fun child b hb => ⟨refoldsChild_iff.mpr ⟨depth, hb⟩, fun c hc => ?_⟩)
    unfold childValue at hb
    rw [hc] at hb
    exact ih hb

theorem refolds_iff {id : NodeId} {v : α} :
    t.Refolds cost id v ↔
      ∃ below, List.Forall₂ (t.RefoldsChild cost) (t.node id).children below ∧ v = cost (t.node id) below.sum := by
  constructor
  · intro h
    refine refolds_induct (fun id v => ∃ below, List.Forall₂ (t.RefoldsChild cost) (t.node id).children below ∧
      v = cost (t.node id) below.sum) (fun id below each => ?_) h
    exact ⟨below, each.imp fun _ _ hb => hb.1, rfl⟩
  · rintro ⟨below, hbelow, rfl⟩
    obtain ⟨depth, hdepth⟩ := exists_depth hbelow
    exact ⟨depth + 1, refold_succ_eq_some.mpr ⟨below, hdepth, rfl⟩⟩

theorem refolds_unique {id : NodeId} {v w : α} (hv : t.Refolds cost id v) (hw : t.Refolds cost id w) : v = w := by
  obtain ⟨m, hm⟩ := hv
  obtain ⟨n, hn⟩ := hw
  have hm' := refold_of_le (Nat.le_max_left m n) hm
  have hn' := refold_of_le (Nat.le_max_right m n) hn
  exact Option.some.inj (hm'.symm.trans hn')

end

/-- A value over an image of the numbers is the image of a value over the numbers. -/
theorem exists_of_refolds {α β : Type} [AddMonoid α] [AddMonoid β] (φ : α →+ β) {t : CostTree}
    {cost : CostNode → α → α} {cost' : CostNode → β → β} (hcost : ∀ n a, φ (cost n a) = cost' n (φ a))
    {id : NodeId} {v : β} (h : t.Refolds cost' id v) : ∃ a, t.Refolds cost id a ∧ φ a = v := by
  refine refolds_induct (fun id v => ∃ a, t.Refolds cost id a ∧ φ a = v) (fun id below each => ?_) h
  obtain ⟨as, has, rfl⟩ := exists_map_of_forall₂ (S := t.RefoldsChild cost) (φ := φ) (fun child b ⟨hb, hp⟩ => by
    unfold RefoldsChild at hb ⊢
    cases ht : t.target? child with
    | none => rw [ht] at hb; exact ⟨0, rfl, by rw [map_zero]; exact hb.symm⟩
    | some c => exact hp c ht) each
  exact ⟨_, refolds_iff.mpr ⟨as, has, rfl⟩, by rw [hcost, map_list_sum]⟩

/-- The node costs this, by the plain recursion in sizes. -/
abbrev Costs (t : CostTree) (defaultComplexity : Size) : NodeId → Size → Prop :=
  t.Refolds fun n => n.complexity defaultComplexity

/-! ## What is reached -/

open Relation

/-- From a node to one attached below it. -/
def Attached (t : CostTree) : NodeId → NodeId → Prop :=
  ReflTransGen fun p c => .node c ∈ (t.node p).children

/-- The name is spread at the node or at one attached below it. -/
def Records (t : CostTree) (id : NodeId) (f : String) : Prop :=
  ∃ n, t.Attached id n ∧ .fragment f ∈ (t.node n).children

/-- The body of the first fragment records the second. -/
def Spreads (t : CostTree) (f g : String) : Prop := ∃ body, t.fragments.get? f = some body ∧ t.Records body g

/-- The name is recorded at the node, or by a fragment that is reached from it. -/
def Reached (t : CostTree) (root : NodeId) (f : String) : Prop :=
  ∃ g, t.Records root g ∧ ReflTransGen t.Spreads g f

/-- A fragment that is reached spreads itself. -/
def Cyclic (t : CostTree) (root : NodeId) : Prop := ∃ f, t.Reached root f ∧ TransGen t.Spreads f f

/-- Fragments each of which spreads the next: the first is reached and is the last, and
    no other comes twice. -/
structure IsCycle (t : CostTree) (root : NodeId) (names : List String) : Prop where
  two_le : 2 ≤ names.length
  closed : names.getLast? = names.head?
  distinct : names.dropLast.Nodup
  spreads : names.IsChain t.Spreads
  reached : ∀ f, names.head? = some f → t.Reached root f

theorem cyclic_of_isCycle {t : CostTree} {root : NodeId} {names : List String} (h : t.IsCycle root names) :
    t.Cyclic root := by
  obtain ⟨hlen, hclosed, _, hspreads, hreached⟩ := h
  match names, hlen with
  | f :: g :: rest, _ =>
    obtain ⟨hfg, hrest⟩ := List.isChain_cons_cons.mp hspreads
    have hlast : List.getLast (g :: rest) (List.cons_ne_nil _ _) = f := by
      rw [List.getLast?_cons_cons, List.getLast?_eq_getLast_of_ne_nil (List.cons_ne_nil _ _)] at hclosed
      exact Option.some.inj hclosed
    exact ⟨f, hreached f rfl, TransGen.head' hfg (List.relationReflTransGen_of_exists_isChain_cons rest hrest hlast)⟩

theorem IsCycle.head_defined {t : CostTree} {root : NodeId} {names : List String} (h : t.IsCycle root names) :
    ∃ body, t.fragments.get? (names.headD "") = some body := by
  obtain ⟨hlen, _, _, hspreads, _⟩ := h
  match names, hlen with
  | f :: g :: rest, _ =>
    obtain ⟨⟨body, hbody, _⟩, _⟩ := List.isChain_cons_cons.mp hspreads
    exact ⟨body, hbody⟩

/-! ## Values and cycles -/

/-- The recursion takes the first node from the second. -/
def CalledBy (t : CostTree) (c p : NodeId) : Prop := ∃ child ∈ (t.node p).children, t.target? child = some c

variable {t : CostTree}

theorem calledBy_of_attached {id n : NodeId} (h : t.Attached id n) : ReflTransGen t.CalledBy n id := by
  induction h with
  | refl => exact .refl
  | tail _ hc ih => exact .head ⟨_, hc, rfl⟩ ih

theorem calledBy_of_records {id body : NodeId} {f : String} (h : t.Records id f) (hf : t.fragments.get? f = some body) :
    TransGen t.CalledBy body id := by
  obtain ⟨n, hn, hc⟩ := h
  exact TransGen.head' ⟨_, hc, hf⟩ (calledBy_of_attached hn)

theorem calledBy_of_spreads {f g : String} (h : TransGen t.Spreads f g) {b : NodeId}
    (hg : t.fragments.get? g = some b) :
    ∃ body, t.fragments.get? f = some body ∧ TransGen t.CalledBy b body := by
  induction h generalizing b with
  | single h =>
    obtain ⟨body, hf, hr⟩ := h
    exact ⟨body, hf, calledBy_of_records hr hg⟩
  | tail _ h ih =>
    obtain ⟨m, hm, hr⟩ := h
    obtain ⟨body, hf, hb⟩ := ih hm
    exact ⟨body, hf, (calledBy_of_records hr hg).trans hb⟩

theorem acc_of_refolds {α : Type} [Add α] [Zero α] {cost : CostNode → α → α} {id : NodeId} {v : α}
    (h : t.Refolds cost id v) : Acc t.CalledBy id := by
  refine refolds_induct (fun id _ => Acc t.CalledBy id) (fun id below each => ?_) h
  refine Acc.intro id fun c ⟨child, hmem, hc⟩ => ?_
  obtain ⟨_, _, hp⟩ := exists_of_forall₂ each hmem
  exact hp c hc

theorem not_self_of_acc {α : Type} {r : α → α → Prop} {a : α} (h : Acc r a) : ¬ r a a := by
  induction h with
  | intro a _ ih => exact fun haa => ih a haa haa

theorem not_cyclic_of_refolds {α : Type} [Add α] [Zero α] {cost : CostNode → α → α} {root : NodeId} {v : α}
    (h : t.Refolds cost root v) : ¬ t.Cyclic root := by
  rintro ⟨f, ⟨g, hg, hgf⟩, hff⟩
  have hroot : Acc (TransGen t.CalledBy) root := (acc_of_refolds h).transGen
  obtain ⟨_, ⟨b, hb, _⟩, _⟩ := TransGen.head'_iff.mp hff
  obtain ⟨_, hb', hself⟩ := calledBy_of_spreads hff hb
  cases hb.symm.trans hb'
  have hreach : TransGen t.CalledBy b root := by
    rcases reflTransGen_iff_eq_or_transGen.mp hgf with rfl | hgf
    · exact calledBy_of_records hg hb
    · obtain ⟨body, hbody, hbb⟩ := calledBy_of_spreads hgf hb
      exact hbb.trans (calledBy_of_records hg hbody)
  exact not_self_of_acc (hroot.inv hreach) hself

end CostTree

end QueryCost
